import SharedWatch.Text.Split
import SharedWatch.Json.Reader

/-!
Where a request goes: a path and the pairs of its query.

A path is put together from names that may hold any character. One that may not stand in a path
makes the request impossible; a question mark ends the path, and a number sign everything.
-/

namespace SharedWatch

/-- A path and a query, as the server understands them. -/
structure Address where
  path : String
  query : List (String × String)
  deriving DecidableEq, Repr

namespace Address

/-- Whether a character may stand in a path. -/
def inPath (c : Char) : Bool :=
  let n := c.toNat
  0x21 ≤ n && n != 0x23 && n != 0x3C && n != 0x3E && n != 0x3F && n != 0x60

/-- Whether a character may stand in a query. -/
def inQuery (c : Char) : Bool :=
  let n := c.toNat
  0x21 ≤ n && n != 0x22 && n != 0x23 && n != 0x3C && n != 0x3E

/-- Bytes of a text where `%` and two hexadecimal digits stand for one byte and `+` for a blank. -/
def unescape : List Char → List UInt8
  | [] => []
  | '+' :: rest => 32 :: unescape rest
  | '%' :: a :: b :: rest =>
    match Json.hexValue? a, Json.hexValue? b with
    | some x, some y => UInt8.ofNat (16 * x + y) :: unescape rest
    | _, _ => 37 :: unescape (a :: b :: rest)
  | c :: rest => (String.singleton c).toUTF8.toList ++ unescape rest

/-- The text that an escaped one stands for; one whose bytes are no text stands for itself. -/
def plain (cs : List Char) : String :=
  (String.fromUTF8? (ByteArray.mk (unescape cs).toArray)).getD (String.ofList cs)

/-- The pairs of a query, parts of which may lack the value. -/
def pairs (query : List Char) : List (String × String) :=
  ((Text.splitAt '&' query).filter (!·.isEmpty)).map fun part =>
    (plain (part.takeWhile (· != '=')), plain ((part.dropWhile (· != '=')).drop 1))

/-- The address that a text and further pairs make, if every character may stand where it does. -/
def of? (target : String) (query : List (String × String)) : Option Address :=
  let path := target.toList.takeWhile fun c => c != '?' && c != '#'
  if !path.all inPath then none
  else
    match target.toList.drop path.length with
    | '?' :: rest =>
      let own := rest.takeWhile (· != '#')
      if !own.all inQuery then none
      else if own.length = rest.length then some ⟨String.ofList path, pairs own ++ query⟩
      else some ⟨String.ofList path, pairs own⟩
    | '#' :: _ => some ⟨String.ofList path, []⟩
    | _ => some ⟨String.ofList path, query⟩

end Address

structure Response where
  status : Nat
  body : String
  deriving DecidableEq, Repr

/-- A server that answers requests; one that cannot be reached has no answer. -/
class HttpServer (σ : Type) where
  respond : σ → Address → Option Response × σ

structure Unreachable where

instance : HttpServer Unreachable where
  respond server _ := (none, server)

end SharedWatch

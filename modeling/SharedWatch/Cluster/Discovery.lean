import SharedWatch.Cluster.Failure
import SharedWatch.Cluster.Gvk

/-!
Which kinds of resources a cluster has.

The cluster lists its groups, each group its versions, and each version its kinds. Of every group
only one version counts: the one it prefers, else the most stable and newest.
-/

namespace SharedWatch

open Json (FieldReader Reader)

/-- A kind of resources that a cluster has. -/
structure ResourceKind where
  group : String
  version : String
  kind : String
  /-- The version with the group it is listed under, as it stands in paths. -/
  apiVersion : String
  /-- The name of the kind in paths. -/
  plural : String
  /-- Whether the resources live in namespaces. -/
  namespaced : Bool
  deriving DecidableEq, Repr

def ResourceKind.gvk (k : ResourceKind) : Gvk := ⟨k.group, k.version, k.kind⟩

namespace Discovery

/-! ## Ranks of versions -/

/-- A version's rank: how stable it is, its major and its minor number. -/
structure Rank where
  stability : Nat
  major : Nat
  minor : Nat
  deriving DecidableEq, Repr

/-- The rank of a version whose name follows no rule. -/
def Rank.lowest : Rank := ⟨0, 0, 0⟩

/-- The minor number after the word that says how stable a version is; none is less than any. -/
def minor? (cs : List Char) : Option Nat :=
  if cs.isEmpty then some 0 else (Text.numeral? Text.word32 (String.ofList cs)).map (· + 1)

/-- What is left of the characters after a word. -/
def after? : List Char → List Char → Option (List Char)
  | [], cs => some cs
  | _ :: _, [] => none
  | w :: ws, c :: cs => if w = c then after? ws cs else none

/-- The rank of a version named `v1`, `v1beta2` or `v1alpha3`. -/
def rank? (version : String) : Option Rank :=
  match version.toList with
  | 'v' :: rest =>
    match Text.numeral? Text.word32 (String.ofList (rest.takeWhile Text.isDigit)) with
    | none => none
    | some major =>
      let rest := rest.dropWhile Text.isDigit
      if rest.isEmpty then some ⟨3, major, 0⟩
      else
        match after? "beta".toList rest, after? "alpha".toList rest with
        | some m, _ => (minor? m).map fun m => ⟨2, major, m⟩
        | none, some m => (minor? m).map fun m => ⟨1, major, m⟩
        | none, none => none
  | _ => none

/-- Whether the first rank is the higher one. -/
def Rank.above (a b : Rank) : Bool :=
  b.stability < a.stability || (b.stability == a.stability &&
    (b.major < a.major || (b.major == a.major && b.minor < a.minor)))

/-- Whether the first version is to be preferred; of two without a rank the one that comes first in
the alphabet is. -/
def above (a b : String) : Bool :=
  match rank? a, rank? b with
  | none, none => a < b
  | x, y => (x.getD .lowest).above (y.getD .lowest)

/-- The best of some versions, the first of equals. -/
def best (versions : List String) : Option String :=
  versions.foldl (fun known v => match known with
    | none => some v
    | some w => if above v w then some v else some w) none

/-! ## Documents -/

/-- Reads a text that must be the given one. -/
def fixedText (expected : String) : Reader Unit := fun cs =>
  match Json.textValue cs with
  | .error e => .error e
  | .ok (s, rest) => if s = expected then .ok ((), rest) else .error .mismatched

/-- The fields that say what a document is; a document that says so must be of that kind. -/
def header {σ : Type} (kind : String) : List (FieldReader σ) :=
  [ .last "apiVersion" (fun d _ => d) fun _ => fixedText "v1",
    .last "kind" (fun d _ => d) fun _ => fixedText kind ]

/-- A field whose last value counts and whose absence and `null` are the default. -/
def field {σ α : Type} (name : String) (default_ : α) (put : σ → α → σ) (r : Nat → Reader α) :
    FieldReader σ :=
  .last name (fun d x => put d (x.getD default_)) fun n => Json.optional (r n)

def textField {σ : Type} (name : String) (put : σ → String → σ) : FieldReader σ :=
  field name "" put fun _ => Json.textValue

/-- A version of a group, with and without the group's name. -/
structure GroupVersion where
  groupVersion : String
  version : String
  deriving DecidableEq, Repr

def GroupVersion.reader : Nat → Reader GroupVersion :=
  Json.objectValue [textField "groupVersion" fun d x => { d with groupVersion := x },
    textField "version" fun d x => { d with version := x }] ⟨"", ""⟩

structure Group where
  name : String
  versions : List GroupVersion
  preferred : Option GroupVersion
  deriving DecidableEq, Repr

def Group.reader : Nat → Reader Group :=
  Json.objectValue (header "APIGroup" ++ [textField "name" fun d x => { d with name := x },
    field "versions" [] (fun d x => { d with versions := x }) (Json.listValue GroupVersion.reader),
    field "preferredVersion" none (fun d x => { d with preferred := x })
      fun n => Json.mapReader some (GroupVersion.reader n)]) ⟨"", [], none⟩

def groups : Nat → Reader (List Group) :=
  Json.objectValue (header "APIGroupList" ++
    [field "groups" [] (fun _ x => x) (Json.listValue Group.reader)]) []

def coreVersions : Nat → Reader (List String) :=
  Json.objectValue (header "APIVersions" ++
    [field "versions" [] (fun _ x => x) (Json.listValue fun _ => Json.textValue)]) []

/-- One entry in the list of a version's kinds. -/
structure Entry where
  name : String
  kind : String
  namespaced : Bool
  group : Option String
  version : Option String
  deriving DecidableEq, Repr

def Entry.reader : Nat → Reader Entry :=
  Json.objectValue [textField "name" fun d x => { d with name := x },
    textField "kind" fun d x => { d with kind := x },
    field "namespaced" false (fun d x => { d with namespaced := x }) (fun _ => Json.boolValue),
    field "group" none (fun d x => { d with group := x })
      (fun _ => Json.mapReader some Json.textValue),
    field "version" none (fun d x => { d with version := x })
      fun _ => Json.mapReader some Json.textValue] ⟨"", "", false, none, none⟩

structure KindList where
  groupVersion : String
  entries : List Entry
  deriving DecidableEq, Repr

def KindList.reader : Nat → Reader KindList :=
  Json.objectValue (header "APIResourceList" ++
    [textField "groupVersion" fun d x => { d with groupVersion := x },
      field "resources" [] (fun d x => { d with entries := x }) (Json.listValue Entry.reader)])
    ⟨"", []⟩

/-- The group and the version in a name such as `apps/v1`; a name without a group is a version of
the core group. -/
def splitGroupVersion (s : String) : String × String :=
  match Text.splitAt '/' s.toList with
  | group :: rest :: more =>
    (String.ofList group, "/".intercalate ((rest :: more).map String.ofList))
  | _ => ("", s)

/-- The kinds that a version lists. Entries that are parts of others are none. Whether a kind
lives in namespaces is said by the first entry of its name. -/
def KindList.kinds (l : KindList) : List ResourceKind :=
  let (group, version) := splitGroupVersion l.groupVersion
  (l.entries.filter fun e => !e.name.toList.contains '/').map fun e =>
    { group := e.group.getD group
      version := e.version.getD version
      kind := e.kind
      apiVersion := if group = "" then version else group ++ "/" ++ version
      plural := e.name
      namespaced := ((l.entries.find? fun x => x.name == e.name).map (·.namespaced)).getD false }

/-! ## The exchange -/

/-- An exchange with a server, which may fail. -/
abbrev Exchange (σ : Type) := ExceptT Cause (StateM σ)

/-- The body of the answer to a request without a query. -/
def fetch {σ : Type} [HttpServer σ] (target : String) : Exchange σ String := do
  match Address.of? target [] with
  | none => throw .other
  | some address =>
    let answer : Option Response ← modifyGet fun s => HttpServer.respond s address
    match answer with
    | none => throw .unreachable
    | some r =>
      if 400 ≤ r.status ∧ r.status < 600 then throw (.refused (.ofResponse r)) else pure r.body

/-- A document that a server has under an address. -/
def document {σ α : Type} [HttpServer σ] (target : String) (r : Nat → Reader α) :
    Exchange σ α := do
  match Json.whole (r Json.depthLimit) (← fetch target) with
  | .ok x => pure x
  | .error _ => throw .unreadable

/-- The kinds of each of some versions. -/
def versionKinds {σ : Type} [HttpServer σ] :
    List (String × String) → Exchange σ (List (String × List ResourceKind))
  | [] => pure []
  | (version, target) :: rest => do
    let list ← document target KindList.reader
    return (version, list.kinds) :: (← versionKinds rest)

/-- The kinds of a group that count: those of the version it prefers, else of its best one. -/
def recommended (preferred : Option String) (data : List (String × List ResourceKind)) :
    List ResourceKind :=
  match preferred.or (best (data.map (·.1))) with
  | none => []
  | some version => (data.lookup version).getD []

/-- The kinds of a group, found under the given addresses. -/
def groupKinds {σ : Type} [HttpServer σ] (preferred : Option String)
    (versions : List (String × String)) : Exchange σ (List ResourceKind) := do
  if versions.isEmpty then throw .noVersions
  return recommended preferred (← versionKinds versions)

/-- The kinds of some groups, one after the other; a group that is listed again replaces the one
before. -/
def allGroups {σ : Type} [HttpServer σ] :
    List Group → Exchange σ (List (String × List ResourceKind))
  | [] => pure []
  | g :: rest => do
    let kinds ← groupKinds (g.preferred.map (·.version))
      (g.versions.map fun v => (v.version, "/apis/" ++ v.groupVersion))
    let later ← allGroups rest
    return if later.any (·.1 == g.name) then later else (g.name, kinds) :: later

/-- All kinds of a cluster that count; those of the core group come last. -/
def run {σ : Type} [HttpServer σ] : Exchange σ (List ResourceKind) := do
  let named ← allGroups (← document "/apis" groups)
  let versions ← document "/api" coreVersions
  let core ← groupKinds (some "v1") (versions.map fun v => (v, "/api/" ++ v))
  return (named.filter (·.1 != "")).flatMap (·.2) ++ core

end Discovery

end SharedWatch

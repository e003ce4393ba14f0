import SharedWatch.Cluster.Client
import SharedWatch.Proofs.Admission
import SharedWatch.Proofs.Office
import SharedWatch.Proofs.Selector

/-!
The keys of kinds.

A key spells the parts of a kind between slashes, and the core group is left out. Splitting undoes
joining, so the accepted texts can be told from the kinds (`parse?_eq_some_iff`). But the group is
not checked as version and kind are: a key of the core group is also accepted with a slash before
it, and whatever goes by the text of a key then has the kind twice.

Main statement: `keys_name_kinds`. Of the texts without a slash in front those are accepted that are
two or three non-empty parts between slashes, and they name different kinds. The kinds remembered of
a cluster, the handlers on the list and the entries of a cache then differ in the kind too, up to a
slash in front.
-/

namespace SharedWatch

namespace Text

/-- Joining undoes splitting. -/
theorem intercalate_parts (sep : Char) (s : String) :
    (String.singleton sep).intercalate (parts sep s) = s := by
  have hchars : (parts sep s).map String.toList = splitAt sep s.toList := by
    rw [parts, List.map_map]
    exact (List.map_congr_left fun cs _ => String.toList_ofList).trans (List.map_id _)
  apply String.toList_inj.mp
  rw [String.toList_intercalate, String.toList_singleton, hchars, splitAt_eq_splitOn,
    List.intercalate_splitOn]

/-- Splitting is the only way to take the parts from a text again. -/
theorem parts_eq_iff {sep : Char} {s : String} {ps : List String} (hne : ps ≠ []) :
    parts sep s = ps ↔
      s = (String.singleton sep).intercalate ps ∧ ∀ p ∈ ps, sep ∉ p.toList := by
  constructor
  · rintro rfl
    exact ⟨(intercalate_parts sep s).symm, fun p hp => not_mem_parts hp⟩
  · rintro ⟨rfl, hplain⟩
    exact parts_intercalate hne hplain

/-- A separator in front is an empty part in front. -/
theorem parts_sep_append (sep : Char) (s : String) :
    parts sep (String.singleton sep ++ s) = "" :: parts sep s := by
  rw [parts, String.toList_append, String.toList_singleton, List.singleton_append, splitAt,
    if_pos rfl, List.map_cons]
  rfl

end Text

namespace Gvk

/-! ## The texts of keys -/

/-- The parts of a key. The core group is left out. -/
def parts (g : Gvk) : List String :=
  if g.group = "" then [g.version, g.kind] else [g.group, g.version, g.kind]

/-- The parts of a key between slashes. -/
def key (g : Gvk) : String := "/".intercalate g.parts

/-- Whether a kind can be named by a key. -/
structure Named (g : Gvk) : Prop where
  version : g.version ≠ ""
  kind : g.kind ≠ ""
  plain : ∀ p ∈ [g.group, g.version, g.kind], '/' ∉ p.toList

/-- Whether a text is two or three parts between slashes, none of them empty. -/
def IsKey (s : String) : Prop :=
  ∃ ps : List String, (ps.length = 2 ∨ ps.length = 3) ∧ (∀ p ∈ ps, p ≠ "" ∧ '/' ∉ p.toList) ∧
    s = "/".intercalate ps

/-- Whether a text begins with a slash. -/
def Slashed (s : String) : Prop := ∃ t, s = "/" ++ t

/-- Whether two texts are keys of one kind. -/
def SameKind (s t : String) : Prop := ∃ g, parse? s = some g ∧ parse? t = some g

/-- Whether two texts differ in a slash before one of them. -/
def Respelled (s t : String) : Prop := s = "/" ++ t ∨ t = "/" ++ s

theorem parts_subset (g : Gvk) : g.parts ⊆ [g.group, g.version, g.kind] := by
  unfold parts
  split
  · exact List.subset_cons_self _ _
  · exact List.Subset.refl _

theorem IsKey.not_slashed {s : String} (h : IsKey s) : ¬ Slashed s := by
  rintro ⟨t, ht⟩
  obtain ⟨ps, hlen, hps, rfl⟩ := h
  have hne : ps ≠ [] := List.ne_nil_of_length_pos (by omega)
  have hsplit : ps = "" :: Text.parts '/' t := by
    rw [← Text.parts_intercalate hne fun p hp => (hps p hp).2]
    exact (congrArg (Text.parts '/') ht).trans (Text.parts_sep_append '/' t)
  exact (hps "" (hsplit ▸ List.mem_cons_self)).1 rfl

theorem Named.isKey_key {g : Gvk} (h : g.Named) : IsKey g.key := by
  have hfull : (g.parts.length = 2 ∨ g.parts.length = 3) ∧ ∀ p ∈ g.parts, p ≠ "" := by
    unfold parts
    split
    · exact ⟨.inl rfl, by simpa using ⟨h.version, h.kind⟩⟩
    · next hgroup => exact ⟨.inr rfl, by simpa using ⟨hgroup, h.version, h.kind⟩⟩
  exact ⟨g.parts, hfull.1, fun p hp => ⟨hfull.2 p hp, h.plain p (g.parts_subset hp)⟩, rfl⟩

/-- All parts between slashes are the key, with a slash in front if the group is empty. -/
theorem intercalate_all (g : Gvk) : "/".intercalate [g.group, g.version, g.kind] =
    if g.group = "" then "/" ++ g.key else g.key := by
  unfold key parts
  split
  · next hcore => rw [hcore, String.intercalate_cons_cons, String.empty_append]
  · rfl

/-! ## Which texts are accepted -/

/-- What a text is read as, by the parts between its slashes. -/
theorem parse?_eq_some_iff_parts {s : String} {g : Gvk} :
    parse? s = some g ↔ (g.version ≠ "" ∧ g.kind ≠ "") ∧
      (Text.parts '/' s = [g.group, g.version, g.kind] ∨
        g.group = "" ∧ Text.parts '/' s = [g.version, g.kind]) := by
  unfold parse?
  constructor
  · intro h
    split at h
    · next hparts =>
      split at h
      · cases h
      · next hfull => cases h; exact ⟨not_or.mp hfull, .inr ⟨rfl, hparts⟩⟩
    · next hparts =>
      split at h
      · cases h
      · next hfull => cases h; exact ⟨not_or.mp hfull, .inl hparts⟩
    · cases h
  · rintro ⟨hfull, hparts | ⟨hcore, hparts⟩⟩
    · rw [hparts]
      exact if_neg (not_or.mpr hfull)
    · rw [hparts]
      exact (if_neg (not_or.mpr hfull)).trans (hcore ▸ rfl)

/-- A text is accepted for a kind exactly if it is the kind's key, or has a slash before that and
the kind is of the core group. -/
theorem parse?_eq_some_iff {s : String} {g : Gvk} :
    parse? s = some g ↔ g.Named ∧ (s = g.key ∨ g.group = "" ∧ s = "/" ++ g.key) := by
  rw [parse?_eq_some_iff_parts, Text.parts_eq_iff (List.cons_ne_nil _ _),
    Text.parts_eq_iff (List.cons_ne_nil _ _)]
  have hall := g.intercalate_all
  constructor
  · rintro ⟨⟨hversion, hkind⟩, ⟨rfl, hplain⟩ | ⟨hcore, rfl, hplain⟩⟩
    · refine ⟨⟨hversion, hkind, hplain⟩, ?_⟩
      split at hall
      · next hcore => exact .inr ⟨hcore, hall⟩
      · exact .inl hall
    · have hgroup : '/' ∉ g.group.toList := by rw [hcore]; exact List.not_mem_nil
      refine ⟨⟨hversion, hkind, List.forall_mem_cons.mpr ⟨hgroup, hplain⟩⟩, .inl ?_⟩
      rw [key, parts, if_pos hcore]
      rfl
  · rintro ⟨hnamed, hs⟩
    refine ⟨⟨hnamed.version, hnamed.kind⟩, ?_⟩
    rcases hs with rfl | ⟨hcore, rfl⟩
    · by_cases hcore : g.group = ""
      · refine .inr ⟨hcore, ?_, (List.forall_mem_cons.mp hnamed.plain).2⟩
        rw [key, parts, if_pos hcore]
        rfl
      · rw [if_neg hcore] at hall
        exact .inl ⟨hall.symm, hnamed.plain⟩
    · rw [if_pos hcore] at hall
      exact .inl ⟨hall.symm, hnamed.plain⟩

/-- Without a slash in front, what is accepted is what looks like a key. -/
theorem accepted_iff_isKey {s : String} :
    ((∃ g, parse? s = some g) ∧ ¬ Slashed s) ↔ IsKey s := by
  constructor
  · rintro ⟨⟨g, hg⟩, hslash⟩
    obtain ⟨hnamed, rfl | ⟨-, rfl⟩⟩ := parse?_eq_some_iff.mp hg
    · exact hnamed.isKey_key
    · exact absurd ⟨g.key, rfl⟩ hslash
  · intro h
    refine ⟨?_, h.not_slashed⟩
    obtain ⟨ps, hlen, hps, rfl⟩ := h
    have hsplit := Text.parts_intercalate (List.ne_nil_of_length_pos (by omega))
      fun p hp => (hps p hp).2
    rcases hlen with hlen | hlen
    · obtain ⟨version, kind, rfl⟩ := List.length_eq_two.mp hlen
      exact ⟨⟨"", version, kind⟩, parse?_eq_some_iff_parts.mpr
        ⟨⟨(hps version (by simp)).1, (hps kind (by simp)).1⟩, .inr ⟨rfl, hsplit⟩⟩⟩
    · obtain ⟨group, version, kind, rfl⟩ := List.length_eq_three.mp hlen
      exact ⟨⟨group, version, kind⟩, parse?_eq_some_iff_parts.mpr
        ⟨⟨(hps version (by simp)).1, (hps kind (by simp)).1⟩, .inl hsplit⟩⟩

/-- Two accepted texts for one kind are the same, up to a slash in front. -/
theorem SameKind.eq_or_respelled {s t : String} (h : SameKind s t) : s = t ∨ Respelled s t := by
  obtain ⟨g, hs, ht⟩ := h
  obtain ⟨-, hs⟩ := parse?_eq_some_iff.mp hs
  obtain ⟨-, ht⟩ := parse?_eq_some_iff.mp ht
  rcases hs with rfl | ⟨-, rfl⟩ <;> rcases ht with rfl | ⟨-, rfl⟩
  · exact .inl rfl
  · exact .inr (.inr rfl)
  · exact .inr (.inl rfl)
  · exact .inl rfl

theorem SameKind.respelled {s t : String} (h : SameKind s t) (hne : s ≠ t) : Respelled s t :=
  h.eq_or_respelled.resolve_left hne

end Gvk

/-! ## What is remembered of a cluster -/

/-- One use of a cluster. -/
inductive ClusterCall where
  | watch (target : Target) (request : OpenRequest)
  | read (key : ResourceId)
  /-- The next item of a stream is taken. -/
  | next (stream : Nat)
  /-- A stream is given up. -/
  | release (stream : Nat)

namespace Cluster
variable {σ : Type}

/-- The cluster after one use. -/
def call [HttpServer σ] (c : Cluster σ) : ClusterCall → Cluster σ
  | .watch target request => (c.openStream target request).2
  | .read key => (c.get key).2
  | .next stream => (c.next stream).2
  | .release stream => WatchServer.release c stream

/-- The cluster after some uses, in order. -/
def after [HttpServer σ] (c : Cluster σ) (calls : List ClusterCall) : Cluster σ :=
  calls.foldl call c

/-- Looking a kind up adds it to what is remembered, under a key that was not there and names it, or
adds nothing. -/
theorem known_resolve [HttpServer σ] (c : Cluster σ) (key : String) :
    (c.resolve key).2.known = c.known ∨
      ∃ k : ResourceKind, (c.resolve key).2.known = (key, k) :: c.known ∧
        Gvk.parse? key = some k.gvk ∧ c.known.lookup key = none := by
  unfold resolve
  cases hlookup : c.known.lookup key with
  | some k => exact .inl rfl
  | none =>
    cases hparse : Gvk.parse? key with
    | none => exact .inl rfl
    | some g =>
      rcases (Discovery.run : Discovery.Exchange σ _).run c.server with ⟨kinds, server⟩
      cases kinds with
      | error cause => exact .inl rfl
      | ok kinds =>
        cases hfind : kinds.find? fun k => k.gvk == g with
        | none => simp [hfind]
        | some k =>
          have hk : k.gvk = g := by simpa using List.find?_some hfind
          exact .inr ⟨k, by simp [hfind], by rw [hk], rfl⟩

theorem known_send [HttpServer σ] (c : Cluster σ) (address : Option Address) :
    (c.send address).2.known = c.known := by
  cases address with
  | none => rfl
  | some a => rfl

theorem known_watch [HttpServer σ] (c : Cluster σ) (target : Target) (request : OpenRequest) :
    (c.watch target request).2.known = (c.resolve target.gvk).2.known := by
  unfold watch
  rcases c.resolve target.gvk with ⟨kind | kind, c'⟩
  · rfl
  · exact known_send c' _

theorem known_openStream [HttpServer σ] (c : Cluster σ) (target : Target) (request : OpenRequest) :
    (c.openStream target request).2.known = (c.resolve target.gvk).2.known := by
  rw [← known_watch c target request]
  unfold openStream
  rcases c.watch target request with ⟨items | items, c'⟩
  · rfl
  · rfl

theorem known_get [HttpServer σ] (c : Cluster σ) (key : ResourceId) :
    (c.get key).2.known = (c.resolve key.kind).2.known := by
  unfold get
  rcases c.resolve key.kind with ⟨kind | kind, c'⟩
  · rfl
  · by_cases hns : kind.namespaced ∧ key.ns = ""
    · simp [hns]
    · simp only [hns, if_false]
      exact known_send c' _

theorem known_next (c : Cluster σ) (stream : Nat) : (c.next stream).2.known = c.known := by
  unfold next
  split
  · rfl
  · rfl

/-- The kinds that are remembered are those that their keys name, and no key stands twice. -/
structure Catalogued (c : Cluster σ) : Prop where
  named : ∀ x ∈ c.known, Gvk.parse? x.1 = some x.2.gvk
  distinct : (c.known.map (·.1)).Nodup

namespace Catalogued
variable {c : Cluster σ}

theorem new (server : σ) : (Cluster.new server).Catalogued where
  named := nofun
  distinct := List.nodup_nil

theorem of_known {c' : Cluster σ} (h : c.Catalogued) (hknown : c'.known = c.known) :
    c'.Catalogued :=
  ⟨hknown ▸ h.named, hknown ▸ h.distinct⟩

theorem resolve [HttpServer σ] (h : c.Catalogued) (key : String) :
    (c.resolve key).2.Catalogued := by
  rcases c.known_resolve key with hsame | ⟨k, hadded, hparse, hnew⟩
  · exact h.of_known hsame
  · refine ⟨?_, ?_⟩
    · rw [hadded]
      exact List.forall_mem_cons.mpr ⟨hparse, h.named⟩
    · rw [hadded, List.map_cons, List.nodup_cons]
      refine ⟨fun hmem => ?_, h.distinct⟩
      obtain ⟨x, hx, hkey⟩ := List.mem_map.mp hmem
      have hne := List.lookup_eq_none_iff.mp hnew x hx
      simp [hkey] at hne

theorem call [HttpServer σ] (h : c.Catalogued) (m : ClusterCall) : (c.call m).Catalogued := by
  cases m with
  | watch target request =>
    exact (h.resolve target.gvk).of_known (known_openStream c target request)
  | read key => exact (h.resolve key.kind).of_known (known_get c key)
  | next stream => exact h.of_known (known_next c stream)
  | release stream => exact h.of_known rfl

theorem after [HttpServer σ] (h : c.Catalogued) (calls : List ClusterCall) :
    (c.after calls).Catalogued := by
  induction calls generalizing c with
  | nil => exact h
  | cons m calls ih => exact ih (h.call m)

end Catalogued

end Cluster

/-! ## Which kinds stand twice -/

namespace Gvk

/-- The accepted texts and the kinds that they name, and what goes by such texts: the kinds that are
remembered of a cluster, the handlers on the list and the entries of a cache. -/
theorem keys_name_kinds {σ : Type} [HttpServer σ] {τ : StoreBounds → Type} [EntryStore τ]
    [LawfulStore τ] (server : σ) (calls : List ClusterCall) (sections : List OfficeMove)
    (settings : CacheSettings) (uses : List CacheMove) :
    (∀ s g, parse? s = some g ↔ g.Named ∧ (s = g.key ∨ g.group = "" ∧ s = "/" ++ g.key)) ∧
    (∀ s, ((∃ g, parse? s = some g) ∧ ¬ Slashed s) ↔ IsKey s) ∧
    (∀ s t, SameKind s t → s = t ∨ Respelled s t) ∧
    (((Cluster.new server).after calls).known.Pairwise fun x y =>
      x.2.gvk = y.2.gvk → Respelled x.1 y.1) ∧
    ((Office.empty.run sections).registry.serving.Pairwise fun x y =>
      x.1.ns = y.1.ns → SameKind x.1.gvk y.1.gvk → Respelled x.1.gvk y.1.gvk) ∧
    (((Cache.new settings : Cache τ).run uses).retained.Pairwise fun x y =>
      x.key.ns = y.key.ns → x.key.name = y.key.name → SameKind x.key.kind y.key.kind →
        Respelled x.key.kind y.key.kind) := by
  refine ⟨fun s g => parse?_eq_some_iff, fun s => accepted_iff_isKey,
    fun s t h => h.eq_or_respelled, ?_, ?_, ?_⟩
  · have hc := (Cluster.Catalogued.new server).after calls
    refine (List.pairwise_map.mp hc.distinct).imp_of_mem fun {x y} hx hy hne hgvk => ?_
    exact SameKind.respelled ⟨x.2.gvk, hc.named x hx, hgvk ▸ hc.named y hy⟩ hne
  · have hsingle := (Office.Sound.empty.run sections).single
    refine (List.pairwise_map.mp hsingle).imp fun {x y} hne hns hkind => ?_
    refine hkind.respelled fun hgvk => hne ?_
    calc x.1 = ⟨x.1.gvk, x.1.ns⟩ := rfl
      _ = ⟨y.1.gvk, y.1.ns⟩ := by rw [hgvk, hns]
  · have hdistinct := ((Cache.Sound.new (σ := τ) settings).run uses).distinct
    refine (List.pairwise_map.mp hdistinct).imp fun {x y} hne hns hname hkind => ?_
    refine hkind.respelled fun hkey => hne ?_
    calc x.key = ⟨x.key.kind, x.key.ns, x.key.name⟩ := rfl
      _ = ⟨y.key.kind, y.key.ns, y.key.name⟩ := by rw [hkey, hns, hname]

/-- A key with a group, and one of the core group with and without a slash in front. -/
theorem keys_name_kinds_deployment :
    IsKey "apps/v1/Deployment" ∧ (Gvk.mk "apps" "v1" "Deployment").Named ∧
      SameKind "/v1/ConfigMap" "v1/ConfigMap" ∧
      ("/v1/ConfigMap" = "v1/ConfigMap" ∨ Respelled "/v1/ConfigMap" "v1/ConfigMap") := by
  obtain ⟨hparse, hkey, hsame, -⟩ :=
    keys_name_kinds (τ := Shelf) Unreachable.mk [] [] ⟨1, 0, 0, .zero⟩ []
  have hread : parse? "apps/v1/Deployment" = some ⟨"apps", "v1", "Deployment"⟩ := by
    decide +kernel
  have hplain : ¬ Slashed "apps/v1/Deployment" := by
    rintro ⟨t, ht⟩
    have hhead := congrArg (·.toList.head?) ht
    rw [String.toList_append] at hhead
    exact absurd hhead (by simp)
  have hboth : SameKind "/v1/ConfigMap" "v1/ConfigMap" :=
    ⟨⟨"", "v1", "ConfigMap"⟩, by decide +kernel, by decide +kernel⟩
  exact ⟨(hkey _).mp ⟨⟨_, hread⟩, hplain⟩, ((hparse _ _).mp hread).1, hboth, hsame _ _ hboth⟩

/-- A key of the core group with a slash in front has an empty part, and is accepted for the kind
that it names without the slash, which then has two handlers. -/
theorem slashed_key_accepted :
    ¬ IsKey "/v1/ConfigMap" ∧ parse? "/v1/ConfigMap" = some ⟨"", "v1", "ConfigMap"⟩ ∧
      parse? "v1/ConfigMap" = some ⟨"", "v1", "ConfigMap"⟩ ∧
      (Gvk.mk "" "v1" "ConfigMap").key ≠ "/v1/ConfigMap" ∧
      (Office.empty.run [.call ⟨1, .everything⟩ ⟨"v1/ConfigMap", none⟩, .join,
        .call ⟨2, .everything⟩ ⟨"/v1/ConfigMap", none⟩, .join]).registry.serving =
          [(⟨"/v1/ConfigMap", none⟩, 1), (⟨"v1/ConfigMap", none⟩, 0)] := by
  refine ⟨fun h => h.not_slashed ⟨"v1/ConfigMap", rfl⟩, ?_, ?_, ?_, ?_⟩
  · decide +kernel
  · decide +kernel
  · decide +kernel
  · decide +kernel

end Gvk
end SharedWatch

import Mathlib.Data.List.Basic
import Mathlib.Data.List.Nodup
import Mathlib.Data.List.Range
import Mathlib.Tactic.Common

/-!
# Versioned tables

Two tables, one of heads and one of versions. A head has an identifier, a key and
the number of its latest version; a version has a number and refers to its head by
identifier. Three changes are made to them, each as a whole: a head is created with
its first version, a head gets its next version, and a head is dropped with all its
versions.

`Sound` says the tables are what such changes make them: identifiers and keys are
unique, every version has its head, and the versions of a head are numbered from
one to its latest without a gap. `create`, `bump` and `drop` preserve it, and change
the versions under one key only: `versionsOf_create`, `versionsOf_bump` and
`versionsOf_drop`.

`find?_reverse_eq_some` is about a search through versions, newest first.
-/

namespace MiniVault.Foundations

/-! ### Newest first -/

/-- The search from the end finds the last element that satisfies the predicate. -/
theorem find?_reverse_eq_some {α : Type} {xs : List α} {p : α → Bool} {x : α} :
    xs.reverse.find? p = some x ↔
      ∃ i : ℕ, xs[i]? = some x ∧ p x ∧ ∀ (j : ℕ) (y : α), i < j → xs[j]? = some y → ¬ p y := by
  induction xs using List.reverseRecOn with
  | nil => simp
  | append_singleton xs z ih =>
    rw [List.reverse_append, List.reverse_singleton, List.singleton_append, List.find?_cons]
    cases hz : p z with
    | true =>
      simp only [Option.some.injEq]
      constructor
      · rintro rfl
        refine ⟨xs.length, by simp, hz, fun j y hj hy => ?_⟩
        have hlt := (List.getElem?_eq_some_iff.mp hy).1
        simp only [List.length_append, List.length_singleton] at hlt
        omega
      · rintro ⟨i, hi, -, hlast⟩
        by_cases hlt : i < xs.length
        · exact absurd hz (hlast xs.length z hlt (by simp))
        · have hle := (List.getElem?_eq_some_iff.mp hi).1
          simp only [List.length_append, List.length_singleton] at hle
          obtain rfl : i = xs.length := by omega
          simpa using hi
    | false =>
      simp only
      rw [ih]
      constructor
      · rintro ⟨i, hi, hp, hlast⟩
        refine ⟨i, by rw [List.getElem?_append_left (List.getElem?_eq_some_iff.mp hi).1, hi], hp, fun j y hj hy => ?_⟩
        by_cases hlt : j < xs.length
        · exact hlast j y hj (by rwa [List.getElem?_append_left hlt] at hy)
        · rw [List.getElem?_append_right (by omega)] at hy
          have := List.mem_singleton.mp (List.mem_of_getElem? hy)
          simp [this, hz]
      · rintro ⟨i, hi, hp, hlast⟩
        by_cases hlt : i < xs.length
        · refine ⟨i, by rwa [List.getElem?_append_left hlt] at hi, hp, fun j y hj hy => hlast j y hj ?_⟩
          rw [List.getElem?_append_left (List.getElem?_eq_some_iff.mp hy).1, hy]
        · rw [List.getElem?_append_right (by omega)] at hi
          have := List.mem_singleton.mp (List.mem_of_getElem? hi)
          rw [this, hz] at hp
          cases hp

/-! ### The two tables -/

/-- The columns that matter. -/
structure Versioning (H V κ ι ν : Type) where
  /-- A head's identifier. -/
  id : H → ι
  /-- A head's key. -/
  key : H → κ
  /-- The number of a head's latest version. -/
  latest : H → ν
  /-- The head a version refers to. -/
  ref : V → ι
  /-- A version's number. -/
  number : V → ν
  /-- How numbers are written. -/
  num : ℕ → ν
  /-- Different numbers are written differently. -/
  num_inj : Function.Injective num

namespace Versioning

variable {H V κ ι ν : Type} [DecidableEq κ] [DecidableEq ι] (S : Versioning H V κ ι ν)

/-- The head under a key. -/
def headOf (hs : List H) (k : κ) : Option H := hs.find? fun h => S.key h = k

/-- The versions that refer to a head. -/
def belonging (vs : List V) (h : H) : List V := vs.filter fun v => S.ref v = S.id h

/-- The versions under a key, oldest first. -/
def versionsOf (hs : List H) (vs : List V) (k : κ) : List V :=
  match S.headOf hs k with
  | none => []
  | some h => S.belonging vs h

/-- The tables are in order. -/
structure Sound (hs : List H) (vs : List V) : Prop where
  /-- Identifiers are unique. -/
  ids : (hs.map S.id).Nodup
  /-- Keys are unique. -/
  keys : (hs.map S.key).Nodup
  /-- Every version has its head. -/
  refs : ∀ v ∈ vs, ∃ h ∈ hs, S.ref v = S.id h
  /-- A head's versions are numbered from one to its latest. -/
  numbered : ∀ h ∈ hs, ∃ n, 0 < n ∧ S.latest h = S.num n ∧
    (S.belonging vs h).map S.number = (List.range' 1 n).map S.num

/-- The tables after a head got its next version. -/
def bumped (hs : List H) (h : H) (f : H → H) : List H :=
  hs.map fun g => if S.id g = S.id h then f g else g

/-- The heads after the one under `k` was dropped. -/
def keptHeads (hs : List H) (k : κ) : List H := hs.filter fun h => S.key h ≠ k

/-- The versions after the head under `k` was dropped. -/
def keptVersions (hs : List H) (vs : List V) (k : κ) : List V :=
  vs.filter fun v => ∀ h ∈ hs, S.key h = k → S.ref v ≠ S.id h

variable {S} {hs : List H} {vs : List V} {h : H} {v : V} {k : κ}

omit [DecidableEq ι] in
theorem mem_of_headOf (hh : S.headOf hs k = some h) : h ∈ hs ∧ S.key h = k :=
  ⟨List.mem_of_find?_eq_some hh, by simpa using List.find?_some hh⟩

omit [DecidableEq ι] in
theorem headOf_eq_none : S.headOf hs k = none ↔ ∀ h ∈ hs, S.key h ≠ k := by
  simp [headOf]

/-- A head is found under its key. -/
theorem Sound.headOf_key (hS : S.Sound hs vs) (hh : h ∈ hs) : S.headOf hs (S.key h) = some h := by
  cases hfind : S.headOf hs (S.key h) with
  | none => exact absurd rfl (headOf_eq_none.mp hfind h hh)
  | some g =>
    obtain ⟨hg, hkey⟩ := mem_of_headOf hfind
    rw [List.inj_on_of_nodup_map hS.keys hg hh hkey]

omit [DecidableEq κ] in
theorem Sound.eq_of_id (hS : S.Sound hs vs) {g : H} (hg : g ∈ hs) (hh : h ∈ hs) (hid : S.id g = S.id h) : g = h :=
  List.inj_on_of_nodup_map hS.ids hg hh hid

/-- The versions under a key are numbered from one to the head's latest. -/
theorem Sound.numbers (hS : S.Sound hs vs) (hh : S.headOf hs k = some h) :
    (S.versionsOf hs vs k).map S.number = (List.range' 1 (S.versionsOf hs vs k).length).map S.num ∧
      S.latest h = S.num (S.versionsOf hs vs k).length ∧ 0 < (S.versionsOf hs vs k).length := by
  obtain ⟨n, hn, hlatest, hnum⟩ := hS.numbered h (mem_of_headOf hh).1
  have hv : S.versionsOf hs vs k = S.belonging vs h := by simp [versionsOf, hh]
  have hlen : (S.versionsOf hs vs k).length = n := by
    have := congrArg List.length hnum
    simpa [hv] using this
  rw [hlen, hv]
  exact ⟨hnum, hlatest, hn⟩

theorem versionsOf_eq_nil (hS : S.Sound hs vs) : S.versionsOf hs vs k = [] ↔ S.headOf hs k = none := by
  constructor
  · intro h
    cases hh : S.headOf hs k with
    | none => rfl
    | some g =>
      have hpos := (hS.numbers hh).2.2
      simp [h] at hpos
  · intro h
    simp [versionsOf, h]

/-- The number of a version is its place. -/
theorem Sound.number_eq (hS : S.Sound hs vs) {i : ℕ} (hv : (S.versionsOf hs vs k)[i]? = some v) :
    S.number v = S.num (i + 1) := by
  have hlt := (List.getElem?_eq_some_iff.mp hv).1
  cases hh : S.headOf hs k with
  | none =>
    rw [(versionsOf_eq_nil hS).mpr hh] at hv
    cases hv
  | some h =>
    have hnum := congrArg (·[i]?) (hS.numbers hh).1
    simp only [List.getElem?_map, hv, Option.map_some] at hnum
    rw [List.getElem?_range' hlt] at hnum
    simpa [Nat.add_comm] using hnum

/-- The version with a number is the one at its place. -/
theorem Sound.find_number [DecidableEq ν] (hS : S.Sound hs vs) (k : κ) (n : ℕ) :
    (S.versionsOf hs vs k).find? (fun v => S.number v = S.num (n + 1)) = (S.versionsOf hs vs k)[n]? := by
  cases hn : (S.versionsOf hs vs k)[n]? with
  | none =>
    refine List.find?_eq_none.mpr fun v hv => ?_
    obtain ⟨i, hi⟩ := List.getElem?_of_mem hv
    have hlt := (List.getElem?_eq_some_iff.mp hi).1
    have hge := List.getElem?_eq_none_iff.mp hn
    simp only [hS.number_eq hi, S.num_inj.eq_iff, decide_eq_true_eq]
    omega
  | some v =>
    obtain ⟨hlt, hget⟩ := List.getElem?_eq_some_iff.mp hn
    refine List.find?_eq_some_iff_getElem.mpr ⟨by simpa using hS.number_eq hn, n, hlt, hget, fun j hj => ?_⟩
    have hnum := hS.number_eq (List.getElem?_eq_getElem (hj.trans hlt))
    simp only [hnum, S.num_inj.eq_iff, Bool.not_eq_true', decide_eq_false_iff_not]
    omega

omit [DecidableEq ι] in
/-- What is made of the heads under a key is made of the one there is. -/
theorem flatMap_key {β : Type} (hkeys : (hs.map S.key).Nodup) (f : H → List β) (k : κ) :
    (hs.flatMap fun h => if S.key h = k then f h else []) =
      match S.headOf hs k with
      | none => []
      | some h => f h := by
  induction hs with
  | nil => rfl
  | cons h hs ih =>
    obtain ⟨hnot, hkeys⟩ := List.nodup_cons.mp hkeys
    rw [List.flatMap_cons, ih hkeys]
    by_cases hk : S.key h = k
    · have hnone : S.headOf hs k = none :=
        headOf_eq_none.mpr fun g hg hgk => hnot (List.mem_map.mpr ⟨g, hg, hgk.trans hk.symm⟩)
      rw [hnone]
      simp [headOf, hk]
    · simp [headOf, hk]

/-! ### A head is created -/

omit [DecidableEq ι] in
theorem headOf_create (hkey : ∀ g ∈ hs, S.key g ≠ S.key h) (k : κ) :
    S.headOf (hs ++ [h]) k = if S.key h = k then some h else S.headOf hs k := by
  unfold headOf
  rw [List.find?_append]
  split_ifs with hk
  · subst hk
    rw [List.find?_eq_none.mpr fun g hg => by simpa using hkey g hg]
    simp
  · simp [hk]

omit [DecidableEq κ] in
private theorem belonging_fresh (hS : S.Sound hs vs) (hid : ∀ g ∈ hs, S.id g ≠ S.id h) : S.belonging vs h = [] := by
  apply List.filter_eq_nil_iff.mpr
  intro x hx
  obtain ⟨g, hg, href⟩ := hS.refs x hx
  simpa [href] using hid g hg

/-- A head created with its first version: that version is all there is under its
key, and nothing else changes. -/
theorem versionsOf_create (hS : S.Sound hs vs) (hid : ∀ g ∈ hs, S.id g ≠ S.id h)
    (hkey : ∀ g ∈ hs, S.key g ≠ S.key h) (href : S.ref v = S.id h) (k : κ) :
    S.versionsOf (hs ++ [h]) (vs ++ [v]) k = if S.key h = k then [v] else S.versionsOf hs vs k := by
  unfold versionsOf
  rw [headOf_create hkey]
  split_ifs with hk
  · simp only [belonging, List.filter_append]
    rw [show vs.filter (fun x => S.ref x = S.id h) = [] from belonging_fresh hS hid]
    simp [href]
  · cases hg : S.headOf hs k with
    | none => rfl
    | some g =>
      have hne : S.id h ≠ S.id g := (hid g (mem_of_headOf hg).1).symm
      simp [belonging, href, hne]

omit [DecidableEq κ] in
theorem Sound.create (hS : S.Sound hs vs) (hid : ∀ g ∈ hs, S.id g ≠ S.id h) (hkey : ∀ g ∈ hs, S.key g ≠ S.key h)
    (hlatest : S.latest h = S.num 1) (href : S.ref v = S.id h) (hnumber : S.number v = S.num 1) :
    S.Sound (hs ++ [h]) (vs ++ [v]) where
  ids := by
    rw [List.map_append, List.nodup_append]
    refine ⟨hS.ids, by simp, ?_⟩
    rintro _ hmem _ hh rfl
    obtain ⟨g, hg, rfl⟩ := List.mem_map.mp hmem
    exact hid g hg (by simpa using hh)
  keys := by
    rw [List.map_append, List.nodup_append]
    refine ⟨hS.keys, by simp, ?_⟩
    rintro _ hmem _ hh rfl
    obtain ⟨g, hg, rfl⟩ := List.mem_map.mp hmem
    exact hkey g hg (by simpa using hh)
  refs := by
    intro x hx
    rcases List.mem_append.mp hx with hx | hx
    · obtain ⟨g, hg, hr⟩ := hS.refs x hx
      exact ⟨g, List.mem_append_left _ hg, hr⟩
    · obtain rfl := List.mem_singleton.mp hx
      exact ⟨h, by simp, href⟩
  numbered := by
    intro g hg
    rcases List.mem_append.mp hg with hg | hg
    · obtain ⟨n, hn, hl, hm⟩ := hS.numbered g hg
      refine ⟨n, hn, hl, ?_⟩
      have hne : S.id h ≠ S.id g := (hid g hg).symm
      simpa [belonging, href, hne] using hm
    · obtain rfl := List.mem_singleton.mp hg
      refine ⟨1, Nat.one_pos, hlatest, ?_⟩
      simp only [belonging, List.filter_append]
      rw [show vs.filter (fun x => S.ref x = S.id g) = [] from belonging_fresh hS hid]
      simp [href, hnumber]

/-! ### A head gets its next version -/

theorem headOf_bumped {f : H → H} (hkey : ∀ g, S.key (f g) = S.key g) (k : κ) :
    S.headOf (S.bumped hs h f) k =
      (S.headOf hs k).map fun g => if S.id g = S.id h then f g else g := by
  unfold headOf bumped
  rw [List.find?_map]
  congr 2
  funext g
  simp only [Function.comp]
  split_ifs <;> simp [hkey]

/-- A head that gets its next version: the version is added under its key, and
nothing else changes. -/
theorem versionsOf_bumped (hS : S.Sound hs vs) (hh : h ∈ hs) {f : H → H}
    (hid : ∀ g, S.id (f g) = S.id g) (hkey : ∀ g, S.key (f g) = S.key g) (href : S.ref v = S.id h) (k : κ) :
    S.versionsOf (S.bumped hs h f) (vs ++ [v]) k =
      if S.key h = k then S.versionsOf hs vs k ++ [v] else S.versionsOf hs vs k := by
  have hsame : ∀ g, S.id (if S.id g = S.id h then f g else g) = S.id g := by
    intro g
    split_ifs <;> simp [hid]
  unfold versionsOf
  rw [headOf_bumped hkey]
  cases hg : S.headOf hs k with
  | none =>
    have hne : S.key h ≠ k := headOf_eq_none.mp hg h hh
    simp [hne]
  | some g =>
    obtain ⟨hmem, hgk⟩ := mem_of_headOf hg
    simp only [Option.map_some, belonging, hsame, List.filter_append]
    split_ifs with hk
    · have heq : g = h := List.inj_on_of_nodup_map hS.keys hmem hh (hgk.trans hk.symm)
      simp [href, heq]
    · have hne : S.id h ≠ S.id g := fun he => hk ((hS.eq_of_id hh hmem he) ▸ hgk)
      simp [href, hne]

omit [DecidableEq κ] in
theorem Sound.bump (hS : S.Sound hs vs) (hh : h ∈ hs) {f : H → H} (hid : ∀ g, S.id (f g) = S.id g)
    (hkey : ∀ g, S.key (f g) = S.key g) {n : ℕ} (hlatest : S.latest h = S.num n)
    (hlatest' : S.latest (f h) = S.num (n + 1)) (href : S.ref v = S.id h)
    (hnumber : S.number v = S.num (n + 1)) : S.Sound (S.bumped hs h f) (vs ++ [v]) := by
  have hids : (S.bumped hs h f).map S.id = hs.map S.id := by
    simp only [bumped, List.map_map]
    apply List.map_congr_left
    intro g _
    simp only [Function.comp]
    split_ifs <;> simp [hid]
  have hkeys : (S.bumped hs h f).map S.key = hs.map S.key := by
    simp only [bumped, List.map_map]
    apply List.map_congr_left
    intro g _
    simp only [Function.comp]
    split_ifs <;> simp [hkey]
  refine ⟨hids ▸ hS.ids, hkeys ▸ hS.keys, fun x hx => ?_, fun _ hmem => ?_⟩
  · have hhead : ∃ g ∈ hs, S.ref x = S.id g := by
      rcases List.mem_append.mp hx with hx | hx
      · exact hS.refs x hx
      · obtain rfl := List.mem_singleton.mp hx
        exact ⟨h, hh, href⟩
    obtain ⟨g, hg, hr⟩ := hhead
    have hmem : S.id g ∈ (S.bumped hs h f).map S.id := hids ▸ List.mem_map_of_mem hg
    obtain ⟨g', hg', he⟩ := List.mem_map.mp hmem
    exact ⟨g', hg', hr.trans he.symm⟩
  · obtain ⟨g, hg, rfl⟩ := List.mem_map.mp hmem
    split_ifs with hgh
    · obtain rfl := hS.eq_of_id hg hh hgh
      obtain ⟨m, -, hl, hm⟩ := hS.numbered g hg
      obtain rfl : m = n := S.num_inj (hl.symm.trans hlatest)
      refine ⟨m + 1, Nat.succ_pos m, hlatest', ?_⟩
      simp only [belonging, hid, List.filter_append, List.map_append]
      rw [show (vs.filter fun x => S.ref x = S.id g).map S.number = (List.range' 1 m).map S.num from hm]
      simp [href, hnumber, List.range'_1_concat, Nat.add_comm]
    · obtain ⟨m, hm, hl, hnums⟩ := hS.numbered g hg
      refine ⟨m, hm, hl, ?_⟩
      have hne : S.id h ≠ S.id g := fun he => hgh he.symm
      simpa [belonging, href, hne] using hnums

/-! ### A head is dropped -/

omit [DecidableEq ι] in
theorem headOf_keptHeads (k₀ k : κ) : S.headOf (S.keptHeads hs k₀) k = if k = k₀ then none else S.headOf hs k := by
  unfold headOf keptHeads
  rw [List.find?_filter]
  split_ifs with hk
  · subst hk
    simp
  · congr 1
    funext h
    by_cases hh : S.key h = k
    · simp [hh, hk]
    · simp [hh]

/-- A head that is dropped: nothing is left under its key, and nothing else changes. -/
theorem versionsOf_kept (hS : S.Sound hs vs) (k₀ k : κ) :
    S.versionsOf (S.keptHeads hs k₀) (S.keptVersions hs vs k₀) k =
      if k = k₀ then [] else S.versionsOf hs vs k := by
  unfold versionsOf
  rw [headOf_keptHeads]
  split_ifs with hk
  · rfl
  · cases hg : S.headOf hs k with
    | none => rfl
    | some g =>
      obtain ⟨hmem, hgk⟩ := mem_of_headOf hg
      simp only [belonging, keptVersions, List.filter_filter]
      apply List.filter_congr
      intro x _
      simp only [ne_eq, decide_eq_true_eq, Bool.and_eq_left_iff_imp]
      intro hx h hh hhk he
      have := hS.eq_of_id hh hmem (he.symm.trans hx)
      exact hk (by rw [← hgk, ← hhk, this])

theorem Sound.drop (hS : S.Sound hs vs) (k : κ) : S.Sound (S.keptHeads hs k) (S.keptVersions hs vs k) where
  ids := hS.ids.sublist (List.filter_sublist.map _)
  keys := hS.keys.sublist (List.filter_sublist.map _)
  refs := by
    intro v hv
    obtain ⟨hv, hkeep⟩ := List.mem_filter.mp hv
    simp only [ne_eq, decide_eq_true_eq] at hkeep
    obtain ⟨h, hh, hr⟩ := hS.refs v hv
    exact ⟨h, List.mem_filter.mpr ⟨hh, by simpa using fun hk => hkeep h hh hk hr⟩, hr⟩
  numbered := by
    intro g hg
    obtain ⟨hg, hgk⟩ := List.mem_filter.mp hg
    simp only [ne_eq, decide_not, Bool.not_eq_eq_eq_not, Bool.not_true, decide_eq_false_iff_not] at hgk
    obtain ⟨n, hn, hl, hm⟩ := hS.numbered g hg
    refine ⟨n, hn, hl, ?_⟩
    rw [← hm]
    congr 1
    simp only [belonging, keptVersions, List.filter_filter]
    apply List.filter_congr
    intro x _
    simp only [ne_eq, decide_eq_true_eq, Bool.and_eq_left_iff_imp]
    intro hx h hh hhk he
    exact hgk (hS.eq_of_id hh hg (he.symm.trans hx) ▸ hhk)

/-! ### Other columns of the versions change -/

omit [DecidableEq κ] in
theorem belonging_map {f : V → V} (href : ∀ v, S.ref (f v) = S.ref v) (h : H) :
    S.belonging (vs.map f) h = (S.belonging vs h).map f := by
  simp only [belonging, List.filter_map, Function.comp_def, href]

theorem versionsOf_map {f : V → V} (href : ∀ v, S.ref (f v) = S.ref v) (k : κ) :
    S.versionsOf hs (vs.map f) k = (S.versionsOf hs vs k).map f := by
  unfold versionsOf
  cases S.headOf hs k with
  | none => rfl
  | some h => exact belonging_map href h

omit [DecidableEq κ] in
theorem Sound.map (hS : S.Sound hs vs) {f : V → V} (href : ∀ v, S.ref (f v) = S.ref v)
    (hnumber : ∀ v, S.number (f v) = S.number v) : S.Sound hs (vs.map f) where
  ids := hS.ids
  keys := hS.keys
  refs := by
    intro v hv
    obtain ⟨x, hx, rfl⟩ := List.mem_map.mp hv
    rw [href]
    exact hS.refs x hx
  numbered := by
    intro h hh
    obtain ⟨n, hn, hl, hm⟩ := hS.numbered h hh
    refine ⟨n, hn, hl, ?_⟩
    rw [belonging_map href, List.map_map, ← hm]
    exact List.map_congr_left fun v _ => hnumber v

omit [DecidableEq κ] in
theorem Sound.empty : S.Sound [] [] := ⟨by simp, by simp, by simp, by simp⟩

end Versioning

end MiniVault.Foundations

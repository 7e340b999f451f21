import MiniVault.Foundations.Rows
import MiniVault.Foundations.Versions

/-!
# Versioned tables with a part in common

Two pairs of versioned tables that are the same as far as some of the keys go: in both there are
heads under the same of these keys, in the same order, with the same versions. Identifiers may
differ, and so may everything under the other keys.

## The model

* `ρ i j` — the head that has, or had, the identifier `i` in the first tables has, or had, `j` in
  the second.
* `Twins P eh ev ρ` — the heads whose keys satisfy `P` correspond; `eh` and `ev` are what heads
  and versions show besides their identifiers.

## What is proved

* `Twins.headOf`, `Twins.versionsOf` — what is found under a key of the part.
* `Twins.create`, `Twins.update`, `Twins.insert`, `Twins.drop` — the same change in both tables.
* `Twins.create_aside`, `Twins.update_aside`, `Twins.insert_aside`, `Twins.drop_aside` — a change
  in the first tables that is none of the part.
-/

namespace MiniVault.Foundations.Versioning

variable {H V H' V' κ ι ν : Type} [DecidableEq κ] [DecidableEq ι]

/-- The heads whose keys satisfy `P` correspond, and their versions do. -/
structure Twins (S : Versioning H V κ ι ν) (P : κ → Prop) [DecidablePred P] (eh : H → H') (ev : V → V')
    (ρ : ι → ι → Prop) (hs : List H) (vs : List V) (hs' : List H) (vs' : List V) : Prop where
  /-- The heads, in order. -/
  heads : Corresponds (fun h h' => ρ (S.id h) (S.id h') ∧ eh h = eh h') (hs.filter fun h => P (S.key h))
    (hs'.filter fun h => P (S.key h))
  /-- The versions that refer to identifiers that correspond. -/
  versions : ∀ i j, ρ i j → (vs.filter fun v => S.ref v = i).map ev = (vs'.filter fun v => S.ref v = j).map ev
  /-- An identifier corresponds to one. -/
  functional : ∀ {i j j'}, ρ i j → ρ i j' → j = j'
  /-- And only one to it. -/
  injective : ∀ {i i' j}, ρ i j → ρ i' j → i = i'
  /-- No head under another key has such an identifier in the first tables. -/
  mine : ∀ h ∈ hs, ∀ j, ρ (S.id h) j → P (S.key h)
  /-- Nor in the second. -/
  mine' : ∀ h ∈ hs', ∀ i, ρ i (S.id h) → P (S.key h)

namespace Twins

variable {S : Versioning H V κ ι ν} {P : κ → Prop} [DecidablePred P] {eh : H → H'} {ev : V → V'} {ρ : ι → ι → Prop}
  {hs hs' : List H} {vs vs' : List V} {h h' : H} {v v' : V} {i j : ι} {k : κ}

/-! ### What is found -/

omit [DecidableEq ι] in
/-- A key of the part is looked for in the part. -/
theorem headOf_filter (hk : P k) : S.headOf (hs.filter fun h => P (S.key h)) k = S.headOf hs k := by
  unfold Versioning.headOf
  rw [List.find?_filter]
  congr 1
  funext h
  by_cases hh : S.key h = k
  · simp [hh, hk]
  · simp [hh]

/-- **What is found under a key of the part**: heads that correspond, or none in both. -/
theorem headOf (hT : Twins S P eh ev ρ hs vs hs' vs') (hkey : ∀ h h', eh h = eh h' → S.key h = S.key h') (hk : P k) :
    Option.Rel (fun h h' => ρ (S.id h) (S.id h') ∧ eh h = eh h') (S.headOf hs k) (S.headOf hs' k) := by
  have hpart : S.headOf (hs'.filter fun h => P (S.key h)) k = S.headOf hs' k := headOf_filter hk
  rw [← headOf_filter hk, ← hpart]
  have hall := hT.heads
  generalize hs.filter (fun h => P (S.key h)) = gs at hall
  generalize hs'.filter (fun h => P (S.key h)) = gs' at hall
  induction hall with
  | nil => exact .none
  | @cons g g' gs gs' hg hgs ih =>
    unfold Versioning.headOf at ih ⊢
    rw [List.find?_cons, List.find?_cons, hkey g g' hg.2]
    by_cases hgk : S.key g' = k
    · simp only [hgk, decide_true]
      exact .some hg
    · simp only [hgk, decide_false]
      exact ih

omit [DecidableEq κ] in
/-- There is a head with an identifier where there is one with the other. -/
theorem exists_head (hT : Twins S P eh ev ρ hs vs hs' vs') (hij : ρ i j) :
    (∃ h ∈ hs, S.id h = i) ↔ ∃ h ∈ hs', S.id h = j := by
  constructor
  · rintro ⟨h, hh, rfl⟩
    have hmem : h ∈ hs.filter fun h => P (S.key h) := List.mem_filter.mpr ⟨hh, by simpa using hT.mine h hh j hij⟩
    obtain ⟨h', hh', hρ, -⟩ := Corresponds.exists_left hT.heads hmem
    exact ⟨h', (List.mem_filter.mp hh').1, hT.functional hρ hij⟩
  · rintro ⟨h', hh', rfl⟩
    have hmem : h' ∈ hs'.filter fun h => P (S.key h) := List.mem_filter.mpr ⟨hh', by simpa using hT.mine' h' hh' i hij⟩
    obtain ⟨h, hh, hρ, -⟩ := Corresponds.exists_right hT.heads hmem
    exact ⟨h, (List.mem_filter.mp hh).1, hT.injective hρ hij⟩

/-- **The versions under a key of the part** show the same. -/
theorem versionsOf (hT : Twins S P eh ev ρ hs vs hs' vs') (hkey : ∀ h h', eh h = eh h' → S.key h = S.key h') (hk : P k) :
    (S.versionsOf hs vs k).map ev = (S.versionsOf hs' vs' k).map ev := by
  unfold Versioning.versionsOf
  have hhead := hT.headOf hkey hk
  revert hhead
  cases S.headOf hs k <;> cases S.headOf hs' k <;> intro hhead
  · rfl
  · cases hhead
  · cases hhead
  · cases hhead with
    | some hh => exact hT.versions _ _ hh.1

/-- As many heads are under a key of the part. -/
theorem count (hT : Twins S P eh ev ρ hs vs hs' vs') (hkey : ∀ h h', eh h = eh h' → S.key h = S.key h') (hk : P k) :
    (hs.filter fun h => S.key h = k).length = (hs'.filter fun h => S.key h = k).length := by
  have hpart : ∀ gs : List H, (gs.filter fun h => S.key h = k) = (gs.filter fun h => P (S.key h)).filter fun h => S.key h = k := by
    intro gs
    rw [List.filter_filter]
    apply List.filter_congr
    intro g _
    by_cases hg : S.key g = k
    · simp [hg, hk]
    · simp [hg]
  rw [hpart hs, hpart hs']
  exact (Corresponds.filter hT.heads fun g g' hg => by rw [hkey g g' hg.2]).length_eq

omit [DecidableEq κ] in
/-- **What is found among the versions of a head** shows the same. -/
theorem find_version (hT : Twins S P eh ev ρ hs vs hs' vs') (hij : ρ i j) {p : V → Bool} {q : V' → Bool}
    (hp : ∀ v, p v = q (ev v)) : (vs.find? fun v => decide (S.ref v = i) && p v).map ev =
      (vs'.find? fun v => decide (S.ref v = j) && p v).map ev := by
  have hpart : ∀ (us : List V) (i : ι), (us.find? fun v => decide (S.ref v = i) && p v) =
      (us.filter fun v => S.ref v = i).find? p := by
    intro us i
    rw [List.find?_filter]
    congr 1
    funext v
    simp
  have hfun : p = q ∘ ev := funext hp
  rw [hpart, hpart, hfun, ← List.find?_map, ← List.find?_map, hT.versions i j hij]

omit [DecidableEq κ] in
/-- Nothing corresponds in empty tables. -/
theorem empty : Twins S P eh ev (fun _ _ => False) [] [] [] [] :=
  ⟨.nil, fun _ _ h => h.elim, fun h _ => h.elim, fun h _ => h.elim, fun _ h => absurd h List.not_mem_nil,
    fun _ h => absurd h List.not_mem_nil⟩

/-! ### The same change in both -/

omit [DecidableEq κ] in
/-- **A head is created in both tables**, under one key of the part. -/
theorem create (hT : Twins S P eh ev ρ hs vs hs' vs') (hP : P (S.key h)) (hP' : P (S.key h')) (heq : eh h = eh h')
    (hnew : ∀ j, ¬ ρ (S.id h) j) (hnew' : ∀ i, ¬ ρ i (S.id h')) (hrefs : ∀ v ∈ vs, S.ref v ≠ S.id h)
    (hrefs' : ∀ v ∈ vs', S.ref v ≠ S.id h') (hids : ∀ g ∈ hs, S.id g ≠ S.id h) (hids' : ∀ g ∈ hs', S.id g ≠ S.id h') :
    Twins S P eh ev (fun i j => ρ i j ∨ (i = S.id h ∧ j = S.id h')) (hs ++ [h]) vs (hs' ++ [h']) vs' where
  heads := by
    have hpart : ∀ {gs : List H} {g : H}, P (S.key g) →
        (gs ++ [g]).filter (fun h => P (S.key h)) = gs.filter (fun h => P (S.key h)) ++ [g] := by
      intro gs g hg
      simp [List.filter_append, hg]
    rw [hpart hP, hpart hP']
    exact Corresponds.append_singleton (hT.heads.imp fun _ _ hg => ⟨.inl hg.1, hg.2⟩) ⟨.inr ⟨rfl, rfl⟩, heq⟩
  versions := by
    rintro i j (hij | ⟨rfl, rfl⟩)
    · exact hT.versions i j hij
    · rw [List.filter_eq_nil_iff.mpr fun v hv => by simpa using hrefs v hv,
        List.filter_eq_nil_iff.mpr fun v hv => by simpa using hrefs' v hv]
  functional := by
    rintro i j j' (hij | ⟨rfl, rfl⟩) (hij' | ⟨hi, rfl⟩)
    · exact hT.functional hij hij'
    · exact absurd (hi ▸ hij) (hnew j)
    · exact absurd hij' (hnew j')
    · rfl
  injective := by
    rintro i i' j (hij | ⟨rfl, rfl⟩) (hij' | ⟨rfl, hj⟩)
    · exact hT.injective hij hij'
    · exact absurd (hj ▸ hij) (hnew' i)
    · exact absurd hij' (hnew' i')
    · rfl
  mine := by
    intro g hg j hij
    rcases List.mem_append.mp hg with hg | hg
    · rcases hij with hij | ⟨hi, -⟩
      · exact hT.mine g hg j hij
      · exact absurd hi (hids g hg)
    · rwa [List.mem_singleton.mp hg]
  mine' := by
    intro g hg i hij
    rcases List.mem_append.mp hg with hg | hg
    · rcases hij with hij | ⟨-, hj⟩
      · exact hT.mine' g hg i hij
      · exact absurd hj (hids' g hg)
    · rwa [List.mem_singleton.mp hg]

omit [DecidableEq κ] in
/-- **A head is changed in both tables**, but for its identifier and its key. -/
theorem update (hT : Twins S P eh ev ρ hs vs hs' vs') (hij : ρ i j) {f f' : H → H} (hid : ∀ h, S.id (f h) = S.id h)
    (hid' : ∀ h, S.id (f' h) = S.id h) (hkey : ∀ h, S.key (f h) = S.key h) (hkey' : ∀ h, S.key (f' h) = S.key h)
    (hf : ∀ h h', eh h = eh h' → eh (f h) = eh (f' h')) :
    Twins S P eh ev ρ (hs.map fun h => if S.id h = i then f h else h) vs
      (hs'.map fun h => if S.id h = j then f' h else h) vs' := by
  have hids : ∀ {f : H → H}, (∀ h, S.id (f h) = S.id h) → ∀ i h, S.id (if S.id h = i then f h else h) = S.id h := by
    intro f hid i h
    split_ifs <;> simp [hid]
  have hkeys : ∀ {f : H → H}, (∀ h, S.key (f h) = S.key h) → ∀ i h, S.key (if S.id h = i then f h else h) = S.key h := by
    intro f hkey i h
    split_ifs <;> simp [hkey]
  refine ⟨?_, hT.versions, hT.functional, hT.injective, fun g hg k hk => ?_, fun g hg k hk => ?_⟩
  · rw [List.filter_map, List.filter_map]
    simp only [Function.comp_def, hkeys hkey, hkeys hkey']
    refine Corresponds.map hT.heads fun g _ g' _ hg => ⟨by rw [hids hid, hids hid']; exact hg.1, ?_⟩
    by_cases hgi : S.id g = i
    · have hgj : S.id g' = j := hT.functional (hgi ▸ hg.1) hij
      rw [if_pos hgi, if_pos hgj]
      exact hf g g' hg.2
    · have hgj : S.id g' ≠ j := fun hgj => hgi (hT.injective (hgj ▸ hg.1) hij)
      rw [if_neg hgi, if_neg hgj]
      exact hg.2
  · obtain ⟨g₀, hg₀, rfl⟩ := List.mem_map.mp hg
    rw [hids hid] at hk
    rw [hkeys hkey]
    exact hT.mine g₀ hg₀ k hk
  · obtain ⟨g₀, hg₀, rfl⟩ := List.mem_map.mp hg
    rw [hids hid'] at hk
    rw [hkeys hkey']
    exact hT.mine' g₀ hg₀ k hk

omit [DecidableEq κ] in
/-- **A version is added in both tables**, to heads that correspond. -/
theorem insert (hT : Twins S P eh ev ρ hs vs hs' vs') (hij : ρ (S.ref v) (S.ref v')) (heq : ev v = ev v') :
    Twins S P eh ev ρ hs (vs ++ [v]) hs' (vs' ++ [v']) where
  heads := hT.heads
  versions i j hρ := by
    rw [List.filter_append, List.filter_append, List.map_append, List.map_append, hT.versions i j hρ]
    by_cases hi : S.ref v = i
    · have hj : S.ref v' = j := hT.functional hij (hi ▸ hρ)
      simp [hi, hj, heq]
    · have hj : S.ref v' ≠ j := fun hj => hi (hT.injective hij (hj ▸ hρ))
      simp [hi, hj]
  functional := hT.functional
  injective := hT.injective
  mine := hT.mine
  mine' := hT.mine'

/-- **A key of the part is dropped in both tables.** -/
theorem drop (hT : Twins S P eh ev ρ hs vs hs' vs') (hkey : ∀ h h', eh h = eh h' → S.key h = S.key h') (hk : P k) :
    Twins S P eh ev ρ (S.keptHeads hs k) (S.keptVersions hs vs k) (S.keptHeads hs' k) (S.keptVersions hs' vs' k) where
  heads := by
    unfold keptHeads
    rw [List.filter_comm (fun h => decide (P (S.key h))), List.filter_comm (fun h => decide (P (S.key h)))]
    exact Corresponds.filter hT.heads fun g g' hg => by rw [hkey g g' hg.2]
  versions i j hij := by
    -- the identifier is that of a dropped head in both tables or in neither
    have hgone : (∃ h ∈ hs, S.key h = k ∧ S.id h = i) ↔ ∃ h ∈ hs', S.key h = k ∧ S.id h = j := by
      constructor
      · rintro ⟨h, hh, hhk, rfl⟩
        have hmem : h ∈ hs.filter fun h => P (S.key h) := List.mem_filter.mpr ⟨hh, by simpa [hhk] using hk⟩
        obtain ⟨h', hh', hρ, heq⟩ := Corresponds.exists_left hT.heads hmem
        exact ⟨h', (List.mem_filter.mp hh').1, (hkey h h' heq).symm.trans hhk, hT.functional hρ hij⟩
      · rintro ⟨h', hh', hhk, rfl⟩
        have hmem : h' ∈ hs'.filter fun h => P (S.key h) := List.mem_filter.mpr ⟨hh', by simpa [hhk] using hk⟩
        obtain ⟨h, hh, hρ, heq⟩ := Corresponds.exists_right hT.heads hmem
        exact ⟨h, (List.mem_filter.mp hh).1, (hkey h h' heq).trans hhk, hT.injective hρ hij⟩
    have hkept : ∀ (gs : List H) (us : List V) (i : ι), (S.keptVersions gs us k).filter (fun v => S.ref v = i) =
        if ∃ h ∈ gs, S.key h = k ∧ S.id h = i then [] else us.filter fun v => S.ref v = i := by
      intro gs us i
      unfold keptVersions
      rw [List.filter_filter]
      split_ifs with h
      · obtain ⟨g, hg, hgk, rfl⟩ := h
        apply List.filter_eq_nil_iff.mpr
        intro v _ hv
        simp only [Bool.and_eq_true, decide_eq_true_eq] at hv
        exact hv.2 g hg hgk hv.1
      · apply List.filter_congr
        intro v _
        simp only [ne_eq, Bool.and_eq_left_iff_imp, decide_eq_true_eq]
        rintro rfl g hg hgk hvg
        exact h ⟨g, hg, hgk, hvg.symm⟩
    rw [hkept, hkept, if_congr hgone rfl rfl]
    split_ifs
    · rfl
    · exact hT.versions i j hij
  functional := hT.functional
  injective := hT.injective
  mine g hg := hT.mine g (List.mem_filter.mp hg).1
  mine' g hg := hT.mine' g (List.mem_filter.mp hg).1

/-! ### A change that is none of the part -/

omit [DecidableEq κ] in
theorem create_aside (hT : Twins S P eh ev ρ hs vs hs' vs') (hP : ¬ P (S.key h)) (hnew : ∀ j, ¬ ρ (S.id h) j) :
    Twins S P eh ev ρ (hs ++ [h]) vs hs' vs' where
  heads := by
    rw [List.filter_append, List.filter_singleton]
    simpa [hP] using hT.heads
  versions := hT.versions
  functional := hT.functional
  injective := hT.injective
  mine := by
    intro g hg j hij
    rcases List.mem_append.mp hg with hg | hg
    · exact hT.mine g hg j hij
    · rw [List.mem_singleton.mp hg] at hij
      exact absurd hij (hnew j)
  mine' := hT.mine'

omit [DecidableEq κ] in
theorem update_aside (hT : Twins S P eh ev ρ hs vs hs' vs') (hi : ∀ j, ¬ ρ i j) {f : H → H}
    (hid : ∀ h, S.id (f h) = S.id h) (hkey : ∀ h, S.key (f h) = S.key h) :
    Twins S P eh ev ρ (hs.map fun h => if S.id h = i then f h else h) vs hs' vs' := by
  have hids : ∀ h, S.id (if S.id h = i then f h else h) = S.id h := by
    intro h
    split_ifs <;> simp [hid]
  have hkeys : ∀ h, S.key (if S.id h = i then f h else h) = S.key h := by
    intro h
    split_ifs <;> simp [hkey]
  refine ⟨?_, hT.versions, hT.functional, hT.injective, fun g hg k hk => ?_, hT.mine'⟩
  · rw [List.filter_map]
    simp only [Function.comp_def, hkeys]
    have hsame : (hs.filter fun h => P (S.key h)).map (fun h => if S.id h = i then f h else h) =
        hs.filter fun h => P (S.key h) := by
      refine (List.map_congr_left fun g hg => ?_).trans (List.map_id _)
      obtain ⟨g', -, hρ, -⟩ := Corresponds.exists_left hT.heads hg
      rw [if_neg (by rintro rfl; exact hi _ hρ)]
      rfl
    rw [hsame]
    exact hT.heads
  · obtain ⟨g₀, hg₀, rfl⟩ := List.mem_map.mp hg
    rw [hids] at hk
    rw [hkeys]
    exact hT.mine g₀ hg₀ k hk

omit [DecidableEq κ] in
theorem insert_aside (hT : Twins S P eh ev ρ hs vs hs' vs') (hv : ∀ j, ¬ ρ (S.ref v) j) :
    Twins S P eh ev ρ hs (vs ++ [v]) hs' vs' where
  heads := hT.heads
  versions i j hij := by
    have hne : S.ref v ≠ i := by
      rintro rfl
      exact hv j hij
    rw [List.filter_append, List.filter_singleton]
    simpa [hne] using hT.versions i j hij
  functional := hT.functional
  injective := hT.injective
  mine := hT.mine
  mine' := hT.mine'

theorem drop_aside (hT : Twins S P eh ev ρ hs vs hs' vs') (hk : ¬ P k) :
    Twins S P eh ev ρ (S.keptHeads hs k) (S.keptVersions hs vs k) hs' vs' where
  heads := by
    have hsame : (S.keptHeads hs k).filter (fun h => P (S.key h)) = hs.filter fun h => P (S.key h) := by
      unfold keptHeads
      rw [List.filter_filter]
      apply List.filter_congr
      intro g _
      simp only [ne_eq, Bool.and_eq_left_iff_imp, decide_eq_true_eq]
      rintro hg rfl
      exact hk hg
    rw [hsame]
    exact hT.heads
  versions i j hij := by
    rw [← hT.versions i j hij]
    unfold keptVersions
    rw [List.filter_filter]
    congr 1
    apply List.filter_congr
    intro v _
    simp only [ne_eq, Bool.and_eq_left_iff_imp, decide_eq_true_eq]
    rintro rfl g hg hgk hvg
    exact hk (hgk ▸ hT.mine g hg j (hvg ▸ hij))
  functional := hT.functional
  injective := hT.injective
  mine g hg := hT.mine g (List.mem_filter.mp hg).1
  mine' := hT.mine'

end Twins

end MiniVault.Foundations.Versioning

import Mathlib.Data.List.Nodup

/-!
# Lists of sections, paged through as one

A sectioned list is shown as the concatenation of its sections, and one of its
pages is named either by its place there, by section and row, or by the key of
its section and its row. `pageNames` lists the last kind of name in display
order; it is what a position keeps or loses when a section is put at an end.
`IsFirstPage` and `IsLastPage` are the two ends of the concatenation, found
past empty sections.
-/

namespace ComicReader.Lib

variable {ι α : Type _}

/-- The names of the rows of one section. -/
def rowNames (key : ι) (arr : List α) : List (ι × Nat) :=
  (List.range arr.length).map fun row => (key, row)

/-- The names of all pages, in display order. -/
def pageNames : List ι → List (List α) → List (ι × Nat)
  | key :: keys, arr :: S => rowNames key arr ++ pageNames keys S
  | _, _ => []

theorem pageNames_cons {key : ι} {keys : List ι} {arr : List α}
    {S : List (List α)} : pageNames (key :: keys) (arr :: S) =
      rowNames key arr ++ pageNames keys S := rfl

theorem pageNames_snoc {keys : List ι} {S : List (List α)} {key : ι}
    {arr : List α} (hlen : keys.length = S.length) :
    pageNames (keys ++ [key]) (S ++ [arr]) =
      pageNames keys S ++ rowNames key arr := by
  induction keys generalizing S with
  | nil =>
      obtain rfl : S = [] := List.length_eq_zero_iff.mp hlen.symm
      simp [pageNames]
  | cons k keys ih =>
      cases S with
      | nil => cases hlen
      | cons a S =>
          simp only [List.cons_append, pageNames]
          rw [ih (Nat.succ.inj hlen), List.append_assoc]

theorem mem_rowNames {key k : ι} {arr : List α} {row : Nat} :
    (k, row) ∈ rowNames key arr ↔ k = key ∧ row < arr.length := by
  simp only [rowNames, List.mem_map, List.mem_range, Prod.mk.injEq]
  constructor
  · rintro ⟨n, hn, rfl, rfl⟩
    exact ⟨rfl, hn⟩
  · rintro ⟨rfl, hrow⟩
    exact ⟨row, hrow, rfl, rfl⟩

theorem key_mem_of_mem_pageNames {keys : List ι} {S : List (List α)} {k : ι}
    {row : Nat} (h : (k, row) ∈ pageNames keys S) : k ∈ keys := by
  induction keys generalizing S with
  | nil => simp [pageNames] at h
  | cons key keys ih =>
      cases S with
      | nil => simp [pageNames] at h
      | cons arr S =>
          rcases List.mem_append.mp h with h | h
          · exact List.mem_cons.mpr (Or.inl (mem_rowNames.mp h).1)
          · exact List.mem_cons_of_mem _ (ih h)

/-- When every section is determined by its key, a name is a key with one of
its rows. -/
theorem mem_pageNames_map {f : ι → List α} {keys : List ι} {k : ι}
    {row : Nat} : (k, row) ∈ pageNames keys (keys.map f) ↔
      k ∈ keys ∧ row < (f k).length := by
  induction keys with
  | nil => simp [pageNames]
  | cons key keys ih =>
      rw [List.map_cons, pageNames_cons, List.mem_append, ih, mem_rowNames,
        List.mem_cons, or_and_right]
      refine or_congr_left ?_
      rw [and_congr_right_iff]
      intro hk
      rw [hk]

theorem nodup_rowNames (key : ι) (arr : List α) : (rowNames key arr).Nodup :=
  List.Nodup.map (fun _ _ h => (Prod.mk.inj h).2) List.nodup_range

/-- With distinct keys, no two pages have one name. -/
theorem nodup_pageNames {keys : List ι} {S : List (List α)}
    (hkeys : keys.Nodup) : (pageNames keys S).Nodup := by
  induction keys generalizing S with
  | nil => simp [pageNames]
  | cons key keys ih =>
      cases S with
      | nil => simp [pageNames]
      | cons arr S =>
          obtain ⟨hkey, hkeys⟩ := List.nodup_cons.mp hkeys
          refine List.nodup_append.mpr ⟨nodup_rowNames key arr, ih hkeys, ?_⟩
          rintro ⟨k, row⟩ hk ⟨k', row'⟩ hk' heq
          obtain ⟨rfl, -⟩ := mem_rowNames.mp hk
          obtain ⟨rfl, rfl⟩ := Prod.mk.inj heq
          exact hkey (key_mem_of_mem_pageNames hk')

/-- A section put in front keeps the page at a position of the rest if and
only if it is empty. -/
theorem getElem?_prepend_iff {l T : List α} (hT : T.Nodup)
    (hdisj : ∀ x ∈ l, x ∉ T) {n : Nat} (hn : n < T.length) :
    (l ++ T)[n]? = T[n]? ↔ l = [] := by
  constructor
  · intro heq
    by_contra hl
    have hpos : 0 < l.length := List.length_pos_of_ne_nil hl
    rw [List.getElem?_eq_getElem hn] at heq
    rcases Nat.lt_or_ge n l.length with hlt | hge
    · rw [List.getElem?_append_left hlt] at heq
      exact hdisj _ (List.mem_of_getElem? heq) (List.getElem_mem hn)
    · rw [List.getElem?_append_right hge,
        List.getElem?_eq_getElem (by omega)] at heq
      have hidx := (List.Nodup.getElem_inj_iff hT).mp (Option.some.inj heq)
      omega
  · rintro rfl
    rfl

/-- A section put in front that keeps the page at every position holds all of
them itself. -/
theorem mem_of_prepend_keeps {l T : List α} (hl : l ≠ [])
    (hkept : ∀ (n : Nat) (x : α), T[n]? = some x → (l ++ T)[n]? = some x)
    {x : α} (hx : x ∈ T) : x ∈ l := by
  have hpos : 0 < l.length := List.length_pos_of_ne_nil hl
  obtain ⟨n, hn⟩ := List.mem_iff_getElem?.mp hx
  clear hx
  induction n using Nat.strongRecOn with
  | ind n ih =>
      have hkn := hkept n x hn
      rcases Nat.lt_or_ge n l.length with hlt | hge
      · rw [List.getElem?_append_left hlt] at hkn
        exact List.mem_of_getElem? hkn
      · rw [List.getElem?_append_right hge] at hkn
        exact ih (n - l.length) (by omega) hkn

/-! ## The first and the last page -/

/-- Row `row` of section `sec` exists, and every earlier section is empty. -/
def IsFirstPage (S : List (List α)) (sec row : Nat) : Prop :=
  row = 0 ∧ (∃ arr ∈ S[sec]?, arr ≠ []) ∧ ∀ arr ∈ S.take sec, arr = []

/-- Row `row` of section `sec` is its last, and every later section is
empty. -/
def IsLastPage (S : List (List α)) (sec row : Nat) : Prop :=
  (∃ arr ∈ S[sec]?, row + 1 = arr.length) ∧ ∀ arr ∈ S.drop (sec + 1), arr = []

instance [DecidableEq α] {S : List (List α)} {sec row : Nat} :
    Decidable (IsFirstPage S sec row) :=
  inferInstanceAs (Decidable (_ ∧ (∃ arr ∈ S[sec]?, _) ∧ ∀ arr ∈ S.take sec, _))

instance [DecidableEq α] {S : List (List α)} {sec row : Nat} :
    Decidable (IsLastPage S sec row) :=
  inferInstanceAs
    (Decidable ((∃ arr ∈ S[sec]?, _) ∧ ∀ arr ∈ S.drop (sec + 1), _))

/-- When the last section is not empty, the last page is its last row. -/
theorem IsLastPage.of_ne_nil {S : List (List α)} {sec row : Nat}
    {last : List α} (h : IsLastPage (S ++ [last]) sec row)
    (hlast : last ≠ []) : sec = S.length ∧ row + 1 = last.length := by
  obtain ⟨⟨arr, harr, hrow⟩, hlater⟩ := h
  have hsec := (List.getElem?_eq_some_iff.mp harr).1
  rw [List.length_append, List.length_singleton] at hsec
  have hge : ¬ sec < S.length := by
    intro hlt
    rw [List.drop_append_of_le_length (by omega)] at hlater
    exact hlast (hlater last (List.mem_append_right _ (by simp)))
  obtain rfl : sec = S.length := by omega
  rw [List.getElem?_append_right (Nat.le_refl _)] at harr
  simp only [Nat.sub_self, List.getElem?_cons_zero, Option.mem_def,
    Option.some.injEq] at harr
  exact ⟨rfl, harr ▸ hrow⟩

/-- When the first section is not empty, the first page is its first row. -/
theorem IsFirstPage.of_ne_nil {S : List (List α)} {sec row : Nat}
    {first : List α} (h : IsFirstPage (first :: S) sec row)
    (hfirst : first ≠ []) : sec = 0 ∧ row = 0 := by
  obtain ⟨hrow, -, hearlier⟩ := h
  refine ⟨?_, hrow⟩
  by_contra hsec
  obtain ⟨n, rfl⟩ := Nat.exists_eq_succ_of_ne_zero hsec
  exact hfirst (hearlier first (by simp))

theorem isLastPage_cons {a : List α} {S : List (List α)} {sec row : Nat} :
    IsLastPage (a :: S) (sec + 1) row ↔ IsLastPage S sec row := by
  simp [IsLastPage]

end ComicReader.Lib

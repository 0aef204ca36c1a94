import ComicReader.Color.Grammar

/-!
# Which colours the code reads

The code compares the prefix with `0X` before anything has been upper-cased, so
a lower-case `0x` is not taken off, and it never looks at the six units it is
left with, so any of them make a colour. `KeepsGrammar` is where it does what is
meant all the same: for a colour, anywhere but behind a lower-case `0x`, where
every colour reads as black; for any other text, where no six units are left,
or where each pair of them happens to come to zero.
-/

namespace ComicReader

open Lib

variable {U : UnicodeData}

/-! ## What the code cuts -/

/-- The six units that are cut into pairs, if the tests of the length are
passed. -/
def colorUnits (U : UnicodeData) (hexString : List Char) :
    Option (List Nat) :=
  let colorStr := removeSpaces U (utf16 hexString)
  if colorStr.length < 6 then none
  else
    let colorStr := withoutMarks U colorStr
    if colorStr.length ≠ 6 then none else some colorStr

/-- The values of the three pairs. -/
def pairValues (U : UnicodeData) (colorStr : List Nat) : Int × Int × Int :=
  (hexStringToDouble U (substringWith colorStr 0 2),
    hexStringToDouble U (substringWith colorStr 2 2),
    hexStringToDouble U (substringWith colorStr 4 2))

theorem hexStringToColorValue_eq (s : List Char) :
    hexStringToColorValue U s =
      match colorUnits U s with
      | some colorStr => pairValues U colorStr
      | none => (0, 0, 0) := by
  simp only [hexStringToColorValue, colorUnits]
  split
  · rfl
  · split
    · rfl
    · rfl

theorem utf16_ascii {s : List Char} (hs : ∀ c ∈ s, c.toNat < 128) :
    utf16 s = s.map Char.toNat := by
  induction s with
  | nil => rfl
  | cons c s ih =>
      obtain ⟨hc, hs⟩ := List.forall_mem_cons.mp hs
      rw [utf16, List.flatMap_cons, utf16Char, if_pos (by omega)]
      exact congrArg (c.toNat :: ·) (ih hs)

theorem combines_of_ascii {s : List Char} (hs : ∀ c ∈ s, c.toNat < 128) :
    U.combines (s.map Char.toNat) = false := by
  cases s with
  | nil => exact U.combines_nil
  | cons c s => exact U.combines_ascii _ _ (hs c List.mem_cons_self)

theorem removeSpaces_ascii {s : List Char} (hs : ∀ c ∈ s, c.toNat < 128) :
    removeSpaces U (s.map Char.toNat) = (noSpaces s).map Char.toNat := by
  induction s with
  | nil => rfl
  | cons c s ih =>
      obtain ⟨-, hs⟩ := List.forall_mem_cons.mp hs
      have hspace : c.toNat = 0x20 ↔ c = ' ' := by
        rw [show (0x20 : Nat) = ' '.toNat from rfl, Char.toNat_inj]
      by_cases hc : c = ' '
      · have hkept : noSpaces (c :: s) = noSpaces s := by simp [noSpaces, hc]
        rw [List.map_cons, removeSpaces, hkept,
          if_pos ⟨hspace.mpr hc, combines_of_ascii hs⟩]
        exact ih hs
      · have hkept : noSpaces (c :: s) = c :: noSpaces s := by
          simp [noSpaces, hc]
        rw [List.map_cons, removeSpaces, hkept, List.map_cons,
          if_neg fun h => hc (hspace.mp h.1), ih hs]

theorem startsWith_ascii {t target : List Char}
    (ht : ∀ c ∈ t, c.toNat < 128) (htarget : ∀ c ∈ target, c.toNat < 128) :
    startsWith U (t.map Char.toNat) (utf16 target) ↔ target <+: t := by
  have hrest : U.combines ((t.map Char.toNat).drop target.length) = false := by
    rw [← List.map_drop]
    exact combines_of_ascii fun c hc => ht c (List.mem_of_mem_drop hc)
  rw [startsWith, utf16_ascii htarget, List.length_map, and_iff_left hrest,
    List.prefix_map_iff]
  constructor
  · intro ⟨l, hl, heq⟩
    rw [List.map_injective_iff.mpr (fun _ _ h => Char.toNat_inj.mp h) heq]
    exact hl
  · intro h
    exact ⟨target, h, rfl⟩

theorem decodeUTF16_ascii {s : List Char} (hs : ∀ c ∈ s, c.toNat < 128) :
    decodeUTF16 (s.map Char.toNat) = s := by
  induction s with
  | nil => rfl
  | cons c s ih =>
      obtain ⟨hc, hs⟩ := List.forall_mem_cons.mp hs
      have ih := ih hs
      have hhigh : isHighSurrogate c.toNat = false := by
        simp [isHighSurrogate]
        omega
      have hlow : isLowSurrogate c.toNat = false := by
        simp [isLowSurrogate]
        omega
      cases s with
      | nil => simp [decodeUTF16, hhigh, hlow]
      | cons d s =>
          rw [List.map_cons, List.map_cons, decodeUTF16]
          rw [List.map_cons] at ih
          simp [hhigh, hlow, ih]

/-! ## ASCII text -/

/-- `withoutMarks`, on text. -/
def withoutTextMarks (t : List Char) : List Char :=
  let t := if ['0', 'X'] <+: t then t.drop 2 else t
  if ['#'] <+: t then t.drop 1 else t

theorem withoutMarks_ascii {t : List Char} (ht : ∀ c ∈ t, c.toNat < 128) :
    withoutMarks U (t.map Char.toNat) =
      (withoutTextMarks t).map Char.toNat := by
  have hdrop : ∀ c ∈ t.drop 2, c.toNat < 128 :=
    fun c hc => ht c (List.mem_of_mem_drop hc)
  have hmark : ∀ c ∈ ['0', 'X'], c.toNat < 128 := by decide
  have hhash : ∀ c ∈ ['#'], c.toNat < 128 := by decide
  simp only [withoutMarks, withoutTextMarks, substringFrom,
    startsWith_ascii ht hmark]
  split
  · rw [← List.map_drop]
    simp only [startsWith_ascii hdrop hhash]
    split
    · rw [← List.map_drop]
    · rfl
  · simp only [startsWith_ascii ht hhash]
    split
    · rw [← List.map_drop]
    · rfl

/-- What the code cuts of ASCII text. -/
theorem colorUnits_ascii {s : List Char} (hs : ∀ c ∈ s, c.toNat < 128) :
    colorUnits U s =
      if 6 ≤ (noSpaces s).length ∧
          (withoutTextMarks (noSpaces s)).length = 6 then
        some ((withoutTextMarks (noSpaces s)).map Char.toNat)
      else none := by
  have ht : ∀ c ∈ noSpaces s, c.toNat < 128 :=
    fun c hc => hs c (List.mem_of_mem_filter hc)
  simp only [colorUnits, utf16_ascii hs, removeSpaces_ascii hs,
    withoutMarks_ascii ht, List.length_map]
  split_ifs <;> first | rfl | omega

theorem substringWith_ascii {t : List Char} (ht : ∀ c ∈ t, c.toNat < 128)
    (location length : Nat) :
    substringWith (t.map Char.toNat) location length =
      (t.drop location).take length := by
  rw [substringWith, ← List.map_drop, ← List.map_take]
  refine decodeUTF16_ascii fun c hc => ?_
  exact ht c (List.mem_of_mem_drop (List.mem_of_mem_take hc))

/-! ## Colours -/

theorem ascii_of_noSpaces {s : List Char}
    (h : ∀ c ∈ noSpaces s, c.toNat < 128) : ∀ c ∈ s, c.toNat < 128 := by
  intro c hc
  by_cases hspace : c = ' '
  · rw [hspace]
    decide
  · exact h c (List.mem_filter.mpr ⟨hc, by simpa using hspace⟩)

theorem SixDigits.pair {ds : List Char} (hsix : SixDigits ds) {i : Nat}
    (hi : i + 1 < 6) :
    hexStringToDouble U ((ds.drop i).take 2) = channel ds i := by
  have h₀ : i < ds.length := by rw [hsix.1]; omega
  have h₁ : i + 1 < ds.length := by rw [hsix.1]; exact hi
  have hpair : (ds.drop i).take 2 = [ds.getD i '0', ds.getD (i + 1) '0'] := by
    rw [List.drop_eq_getElem_cons h₀, List.drop_eq_getElem_cons h₁]
    simp only [List.take_succ_cons, List.take_zero,
      List.getD_eq_getElem?_getD, List.getElem?_eq_getElem h₀,
      List.getElem?_eq_getElem h₁, Option.getD_some]
  have hdigits : ∀ c ∈ (ds.drop i).take 2, IsHexDigit c :=
    fun c hc => hsix.2 c (List.mem_of_mem_drop (List.mem_of_mem_take hc))
  rw [hexStringToDouble_digits hdigits, hpair]
  simp only [horner, channel, List.map_cons, List.map_nil, List.foldl_cons,
    List.foldl_nil]
  omega

/-- Six digits are cut into the channels. -/
theorem SixDigits.pairValues {ds : List Char} (hsix : SixDigits ds) :
    pairValues U (ds.map Char.toNat) =
      (channel ds 0, channel ds 2, channel ds 4) := by
  have hds : ∀ c ∈ ds, c.toNat < 128 := fun c hc => (hsix.2 c hc).ascii
  simp only [ComicReader.pairValues, substringWith_ascii hds]
  rw [hsix.pair (by omega), hsix.pair (by omega), hsix.pair (by omega)]

theorem withoutTextMarks_digits {ds : List Char} (hsix : SixDigits ds) :
    withoutTextMarks ds = ds ∧
      withoutTextMarks ('0' :: 'X' :: ds) = ds ∧
      withoutTextMarks ('#' :: ds) = ds ∧
      withoutTextMarks ('0' :: 'x' :: ds) = '0' :: 'x' :: ds := by
  have hX := not_isPrefix_of_digits hsix.2 ['0', 'X'] (by decide)
  have hhash := not_isPrefix_of_digits hsix.2 ['#'] (by decide)
  simp [withoutTextMarks, hX, hhash]

/-- Of a colour all six digits are cut, unless it has the lower-case prefix;
then nothing is. -/
theorem colorUnits_of_colorDigits {s ds : List Char}
    (hs : colorDigits (noSpaces s) = some ds) :
    colorUnits U s =
      if ['0', 'x'] <+: noSpaces s then none
      else some (ds.map Char.toNat) := by
  obtain ⟨hsix, hform⟩ := colorDigits_eq_some.mp hs
  obtain ⟨hbare, hX, hhash, hx⟩ := withoutTextMarks_digits hsix
  have hds : ∀ c ∈ ds, c.toNat < 128 := fun c hc => (hsix.2 c hc).ascii
  have hnot := not_isPrefix_of_digits hsix.2 ['0', 'x'] (by decide)
  have hlength := hsix.1
  obtain ⟨mark, hmark, hsplit⟩ : ∃ mark : List Char,
      (∀ c ∈ mark, c.toNat < 128) ∧ noSpaces s = mark ++ ds := by
    rcases hform with h | h | h | h
    · exact ⟨[], by decide, h⟩
    · exact ⟨['0', 'x'], by decide, h⟩
    · exact ⟨['0', 'X'], by decide, h⟩
    · exact ⟨['#'], by decide, h⟩
  have hascii : ∀ c ∈ noSpaces s, c.toNat < 128 := by
    rw [hsplit]
    exact List.forall_mem_append.mpr ⟨hmark, hds⟩
  rw [colorUnits_ascii (ascii_of_noSpaces hascii)]
  rcases hform with h | h | h | h
  · rw [h, hbare, if_neg hnot, if_pos (by omega)]
  · rw [h, hx]
    simp [hlength]
  · rw [h, hX]
    simp [hlength]
  · rw [h, hhash]
    simp [hlength]

/-! ## Pairs that come to zero -/

/-- The ASCII pairs that read as zero. -/
def zeroPairs : List (List Char) :=
  [['0', '0'], ['1', ' '], ['2', '\x10'], ['3', '\x00'], ['/', '@'],
    ['/', 'G'], ['/', 'g'], ['.', 'W'], ['.', 'w']]

/-- A pair reads as zero. Outside ASCII it is a matter of the bytes of the
upper-cased text, whose offsets have to cancel. -/
def ZeroPair (U : UnicodeData) (pair : List Char) : Prop :=
  if ∀ c ∈ pair, c.toNat < 128 then pair ∈ zeroPairs
  else horner 16 ((utf8 (uppercased U pair)).map weight) = 0

instance {pair : List Char} : Decidable (ZeroPair U pair) :=
  inferInstanceAs (Decidable (if ∀ c ∈ pair, c.toNat < 128 then _ else _ = 0))

theorem asciiPair_eq_zero {c x : Char} (hx : x.toNat < 128) :
    asciiWeight c.toNat * 16 + asciiWeight x.toNat = 0 ↔
      [c, x] ∈ zeroPairs := by
  simp only [zeroPairs, List.mem_cons, List.cons.injEq, and_true,
    List.not_mem_nil, or_false, ← Char.toNat_inj]
  constructor
  · intro h
    simp only [asciiWeight] at h
    -- The second weight is at most 72, so the first one is hardly below zero.
    have hc : c.toNat = 46 ∨ c.toNat = 47 ∨ c.toNat = 48 ∨ c.toNat = 49 ∨
        c.toNat = 50 ∨ c.toNat = 51 := by
      split_ifs at h <;> omega
    rcases hc with hc | hc | hc | hc | hc | hc <;>
      rw [hc] at h ⊢ <;> simp at h ⊢ <;> omega
  · rintro (⟨hc, hx⟩ | ⟨hc, hx⟩ | ⟨hc, hx⟩ | ⟨hc, hx⟩ | ⟨hc, hx⟩ |
      ⟨hc, hx⟩ | ⟨hc, hx⟩ | ⟨hc, hx⟩ | ⟨hc, hx⟩) <;>
      rw [hc, hx] <;> rfl

/-- Two units are two characters, or one of their characters is not ASCII. -/
theorem decodeUTF16_pair (u v : Nat) :
    (∃ c ∈ decodeUTF16 [u, v], 128 ≤ c.toNat) ∨
      ∃ c x, decodeUTF16 [u, v] = [c, x] := by
  have hone : ∀ w : Nat, ∃ x, decodeUTF16 [w] = [x] := by
    intro w
    rw [decodeUTF16]
    split
    · exact ⟨_, rfl⟩
    · exact ⟨_, rfl⟩
  obtain ⟨x, hx⟩ := hone v
  rw [decodeUTF16]
  split_ifs with hpair
  · refine Or.inl ⟨_, List.mem_cons_self, ?_⟩
    simp only [isHighSurrogate, isLowSurrogate, Bool.and_eq_true,
      decide_eq_true_eq] at hpair
    have hvalid : Nat.isValidChar
        (0x10000 + (u - 0xD800) * 0x400 + (v - 0xDC00)) :=
      Or.inr ⟨by omega, by omega⟩
    rw [Char.ofNat, dif_pos hvalid]
    show 128 ≤ 0x10000 + (u - 0xD800) * 0x400 + (v - 0xDC00)
    omega
  · exact Or.inr ⟨_, x, by rw [hx]⟩
  · exact Or.inr ⟨_, x, by rw [hx]⟩

/-- Where a pair reads as zero. -/
theorem zeroPair_iff {colorStr : List Nat} {i : Nat}
    (hi : i + 1 < colorStr.length) :
    ZeroPair U (substringWith colorStr i 2) ↔
      hexStringToDouble U (substringWith colorStr i 2) = 0 := by
  have hunits : substringWith colorStr i 2 =
      decodeUTF16 [colorStr[i], colorStr[i + 1]] := by
    rw [substringWith, List.drop_eq_getElem_cons (by omega),
      List.drop_eq_getElem_cons hi, List.take_succ_cons, List.take_succ_cons,
      List.take_zero]
  rw [hunits]
  unfold ZeroPair
  split_ifs with hascii
  · rcases decodeUTF16_pair colorStr[i] colorStr[i + 1] with
      ⟨c, hc, hhigh⟩ | ⟨c, x, hcx⟩
    · have := hascii c hc
      omega
    · rw [hcx] at hascii ⊢
      rw [hexStringToDouble_ascii hascii,
        ← asciiPair_eq_zero (hascii x (by simp))]
      simp [horner]
  · rw [hexStringToDouble_eq_horner]

/-! ## Where the grammar is kept -/

/-- The code does what is meant with this text. A colour with a lower-case
prefix is black; no other text leaves six units that make a colour which is not
black. -/
def KeepsGrammar (U : UnicodeData) (s : List Char) : Prop :=
  (∀ ds ∈ colorDigits (noSpaces s),
    ['0', 'x'] <+: noSpaces s → ds = List.replicate 6 '0') ∧
  (colorDigits (noSpaces s) = none → ∀ colorStr ∈ colorUnits U s,
    ZeroPair U (substringWith colorStr 0 2) ∧
      ZeroPair U (substringWith colorStr 2 2) ∧
      ZeroPair U (substringWith colorStr 4 2))

instance {s : List Char} : Decidable (KeepsGrammar U s) :=
  inferInstanceAs (Decidable (_ ∧ _))

theorem IsHexDigit.eq_zero {c : Char} (h : IsHexDigit c)
    (hzero : digitValue c = 0) : c = '0' := by
  unfold IsHexDigit at h
  unfold digitValue at hzero
  refine Char.toNat_inj.mp ?_
  show c.toNat = 48
  split_ifs at hzero <;> omega

theorem channels_eq_zero {ds : List Char} (hsix : SixDigits ds) :
    (channel ds 0, channel ds 2, channel ds 4) = (0, 0, 0) ↔
      ds = List.replicate 6 '0' := by
  constructor
  · intro h
    refine List.eq_replicate_iff.mpr ⟨hsix.1, fun c hc => ?_⟩
    obtain ⟨j, hj, rfl⟩ := List.getElem_of_mem hc
    refine (hsix.2 _ hc).eq_zero ?_
    have hget : ds.getD j '0' = ds[j] := by simp [hj]
    rw [← hget]
    simp only [channel, Prod.mk.injEq, Nat.reduceAdd] at h
    have hlt : j < 6 := by rw [← hsix.1]; exact hj
    have hj : j = 0 ∨ j = 1 ∨ j = 2 ∨ j = 3 ∨ j = 4 ∨ j = 5 := by omega
    rcases hj with rfl | rfl | rfl | rfl | rfl | rfl <;> omega
  · rintro rfl
    decide

theorem length_of_colorUnits {s : List Char} {colorStr : List Nat}
    (h : colorUnits U s = some colorStr) : colorStr.length = 6 := by
  simp only [colorUnits] at h
  split_ifs at h with hshort hsix
  obtain rfl := Option.some.inj h
  omega

theorem hexStringToColorValue_eq_spec {s : List Char} :
    hexStringToColorValue U s = colorSpec s ↔ KeepsGrammar U s := by
  rw [hexStringToColorValue_eq]
  cases hs : colorDigits (noSpaces s) with
  | some ds =>
      have hsix := (colorDigits_eq_some.mp hs).1
      rw [colorUnits_of_colorDigits hs]
      simp only [colorSpec, KeepsGrammar, hs]
      by_cases hx : ['0', 'x'] <+: noSpaces s
      · rw [if_pos hx]
        simp only [hx, Option.mem_some_iff, forall_eq', forall_const,
          reduceCtorEq, false_imp_iff, and_true]
        rw [eq_comm]
        exact channels_eq_zero hsix
      · simp [hx, hsix.pairValues]
  | none =>
      simp only [colorSpec, KeepsGrammar, hs]
      cases hunits : colorUnits U s with
      | none => simp
      | some colorStr =>
          have hlength := length_of_colorUnits hunits
          simp [pairValues, zeroPair_iff, hlength]

end ComicReader

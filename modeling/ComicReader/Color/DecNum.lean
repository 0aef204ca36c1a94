import ComicReader.Color.Accepted

/-!
# Numbers as colours

A number is printed in base 16 and the text is read as a colour. The printer
does not pad, so a number below `0x100000` has too few digits and is black; and
it prints a sign, which the reader takes for a digit when five digits stand
behind it. On six digits the two functions together are the bytes of the
number.
-/

namespace ComicReader

open Lib

variable {U : UnicodeData}

/-- The bytes of a 24-bit number; black for any other number. -/
def decNumSpec (n : Int) : Int × Int × Int :=
  if 0 ≤ n ∧ n ≤ 0xFFFFFF then (n / 65536, n / 256 % 256, n % 256)
  else (0, 0, 0)

/-- What is cut of a text without spaces and marks. -/
theorem colorUnits_plain {t : List Char} (hascii : ∀ c ∈ t, c.toNat < 128)
    (hspace : ' ' ∉ t) (hX : 'X' ∉ t) (hhash : '#' ∉ t) :
    colorUnits U t =
      if t.length = 6 then some (t.map Char.toNat) else none := by
  have hkept : noSpaces t = t := by
    refine List.filter_eq_self.mpr fun c hc => ?_
    rw [decide_eq_true_eq]
    rintro rfl
    exact hspace hc
  have hmarks : withoutTextMarks t = t := by
    have hX' : ¬ ['0', 'X'] <+: t := fun h => hX (h.subset (by decide))
    have hhash' : ¬ ['#'] <+: t := fun h => hhash (h.subset (by decide))
    simp only [withoutTextMarks, if_neg hX', if_neg hhash']
  rw [colorUnits_ascii hascii, hkept, hmarks]
  split_ifs <;> first | rfl | omega

/-- Of a printed number only six characters are cut, and then all of them. -/
theorem colorUnits_stringRadix16 (n : Int) :
    colorUnits U (stringRadix16 n) =
      if (stringRadix16 n).length = 6 then
        some ((stringRadix16 n).map Char.toNat)
      else none := by
  have hmem : ∀ c ∈ stringRadix16 n, c = '-' ∨ IsHexDigit c := by
    intro c hc
    unfold stringRadix16 at hc
    split_ifs at hc
    · exact (List.mem_cons.mp hc).imp_right (isHexDigit_of_mem_toDigits c)
    · exact Or.inr (isHexDigit_of_mem_toDigits c hc)
  refine colorUnits_plain ?_ ?_ ?_ ?_
  · intro c hc
    rcases hmem c hc with rfl | hdigit
    · decide
    · exact hdigit.ascii
  · exact fun h => absurd (hmem _ h) (by decide)
  · exact fun h => absurd (hmem _ h) (by decide)
  · exact fun h => absurd (hmem _ h) (by decide)

theorem length_toDigits_eq {n k : Nat} (hk : 0 < k) :
    (Nat.toDigits 16 n).length = k + 1 ↔ 16 ^ k ≤ n ∧ n < 16 ^ (k + 1) := by
  have hle := Nat.length_toDigits_le_iff (n := n) (k := k) (b := 16)
    (by decide) hk
  have hlt := Nat.length_toDigits_le_iff (n := n) (k := k + 1) (b := 16)
    (by decide) (by omega)
  omega

/-- Six digits are their three pairs. -/
theorem SixDigits.value {ds : List Char} (hsix : SixDigits ds) :
    hexStringToDouble U ds =
      channel ds 0 * 65536 + channel ds 2 * 256 + channel ds 4 := by
  have hsplit : ds =
      (ds.drop 0).take 2 ++ ((ds.drop 2).take 2 ++ (ds.drop 4).take 2) := by
    have hlast : (ds.drop 4).take 2 = (ds.drop 2).drop 2 := by
      rw [List.drop_drop, List.take_of_length_le]
      rw [List.length_drop, hsix.1]
    rw [hlast, List.take_append_drop, List.drop_zero, List.take_append_drop]
  have hdigits : ∀ i, ∀ c ∈ (ds.drop i).take 2, IsHexDigit c :=
    fun i c hc => hsix.2 c (List.mem_of_mem_drop (List.mem_of_mem_take hc))
  have htail : ∀ c ∈ (ds.drop 2).take 2 ++ (ds.drop 4).take 2,
      IsHexDigit c := List.forall_mem_append.mpr ⟨hdigits 2, hdigits 4⟩
  have hlength : ∀ i, i + 2 ≤ 6 → ((ds.drop i).take 2).length = 2 := by
    intro i hi
    rw [List.length_take, List.length_drop, hsix.1]
    omega
  calc hexStringToDouble U ds
      = hexStringToDouble U
          ((ds.drop 0).take 2 ++ ((ds.drop 2).take 2 ++ (ds.drop 4).take 2)) :=
        congrArg _ hsplit
    _ = channel ds 0 * 16 ^ 4 + (channel ds 2 * 16 ^ 2 + channel ds 4) := by
        rw [hexStringToDouble_append (hdigits 0) htail,
          hexStringToDouble_append (hdigits 2) (hdigits 4),
          hsix.pair (by omega), hsix.pair (by omega), hsix.pair (by omega),
          List.length_append, hlength 2 (by omega), hlength 4 (by omega)]
    _ = channel ds 0 * 65536 + channel ds 2 * 256 + channel ds 4 := by omega

/-! ## The two signs -/

theorem decNumChannels_eq (n : Int) :
    decNumChannels U n =
      if (stringRadix16 n).length = 6 then
        pairValues U ((stringRadix16 n).map Char.toNat)
      else (0, 0, 0) := by
  rw [decNumChannels, hexStringToColorValue_eq, colorUnits_stringRadix16]
  split_ifs <;> rfl

/-- Without a sign there are six digits on part of the 24-bit range only. -/
theorem decNumChannels_natCast (n : Nat) :
    decNumChannels U n =
      if 0x100000 ≤ n ∧ n ≤ 0xFFFFFF then decNumSpec n else (0, 0, 0) := by
  have hprint : stringRadix16 n = Nat.toDigits 16 n := by
    rw [stringRadix16, if_neg (by omega), Int.natAbs_natCast]
  have hlength := length_toDigits_eq (n := n) (k := 5) (by decide)
  rw [decNumChannels_eq, hprint]
  by_cases hn : 0x100000 ≤ n ∧ n ≤ 0xFFFFFF
  · have hsix : SixDigits (Nat.toDigits 16 n) :=
      ⟨hlength.mpr (by omega), isHexDigit_of_mem_toDigits⟩
    have hvalue := hexStringToDouble_toDigits (U := U) n
    rw [hsix.value] at hvalue
    have hgreen := channel_range hsix (i := 2) (by omega)
    have hblue := channel_range hsix (i := 4) (by omega)
    rw [if_pos hsix.1, if_pos hn, hsix.pairValues, decNumSpec,
      if_pos (by omega), Prod.mk.injEq, Prod.mk.injEq]
    omega
  · rw [if_neg fun h => hn (by have := hlength.mp h; omega), if_neg hn]

/-- With a sign and five digits the first pair comes out negative. -/
theorem decNumChannels_neg {n : Int} (hn : n < 0) :
    decNumChannels U n = (0, 0, 0) ↔ ¬ (-0xFFFFF ≤ n ∧ n ≤ -0x10000) := by
  have hprint : stringRadix16 n = '-' :: Nat.toDigits 16 n.natAbs := by
    rw [stringRadix16, if_pos hn]
  have hlength := length_toDigits_eq (n := n.natAbs) (k := 4) (by decide)
  rw [decNumChannels_eq, hprint, List.length_cons]
  split_ifs with hfive
  · have hrange := hlength.mp (by omega)
    refine iff_of_false ?_ fun h => h (by omega)
    obtain ⟨d, rest, hds⟩ : ∃ d rest, Nat.toDigits 16 n.natAbs = d :: rest :=
      List.exists_cons_of_length_pos (by omega)
    have hd : IsHexDigit d :=
      isHexDigit_of_mem_toDigits d (by rw [hds]; exact List.mem_cons_self)
    have hascii : ∀ c ∈ '-' :: Nat.toDigits 16 n.natAbs, c.toNat < 128 :=
      List.forall_mem_cons.mpr
        ⟨by decide, fun c hc => (isHexDigit_of_mem_toDigits c hc).ascii⟩
    have hpair : hexStringToDouble U ['-', d] = digitValue d - 48 := by
      rw [hexStringToDouble_ascii (by simpa using hd.ascii)]
      simp only [horner, List.map_cons, List.map_nil, List.foldl_cons,
        List.foldl_nil, hd.asciiWeight]
      rw [show asciiWeight '-'.toNat = -3 from rfl]
      omega
    have hlt := hd.digitValue_lt
    intro h
    have hred := congrArg Prod.fst h
    simp only [pairValues, substringWith_ascii hascii] at hred
    rw [hds] at hred
    have hfirst : (('-' :: d :: rest).drop 0).take 2 = ['-', d] := rfl
    rw [hfirst, hpair] at hred
    omega
  · refine iff_of_true rfl fun h => hfive ?_
    rw [hlength.mpr (by omega)]

/-- The channels are the bytes of the number except where it prints with fewer
than six digits, or as a sign and five of them. -/
theorem decNumChannels_iff (U : UnicodeData) (n : Int) :
    decNumChannels U n = decNumSpec n ↔
      ¬ (0 < n ∧ n < 0x100000) ∧ ¬ (-0xFFFFF ≤ n ∧ n ≤ -0x10000) := by
  rcases lt_or_ge n 0 with hn | hn
  · rw [decNumSpec, if_neg (by omega), decNumChannels_neg hn]
    omega
  · obtain ⟨m, rfl⟩ := Int.eq_ofNat_of_zero_le hn
    rw [decNumChannels_natCast, decNumSpec]
    by_cases hm : 0x100000 ≤ m ∧ m ≤ 0xFFFFFF
    · rw [if_pos hm]
      exact iff_of_true rfl (by omega)
    · rw [if_neg hm]
      split_ifs with hspec
      · rw [Prod.mk.injEq, Prod.mk.injEq]
        omega
      · exact iff_of_true rfl (by omega)

/-- A pure blue is black, and a negative number is a colour with a negative
channel. -/
theorem decNumChannels_outsideRange :
    decNumChannels asciiUnicode 0x0000FF = (0, 0, 0) ∧
      decNumSpec 0x0000FF = (0, 0, 255) ∧
      decNumChannels asciiUnicode (-0x12345) = (-47, 35, 69) ∧
      decNumSpec (-0x12345) = (0, 0, 0) := by
  decide

end ComicReader

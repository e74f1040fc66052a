import TileWorld.Number.Decimal
import TileWorld.Proofs.DoubleRounding

/-! Numbers and their text. Decimals in positional notation, with digits and a point alone, are read
as the numbers they were written from. -/
namespace TileWorld.Number

theorem isDigit_toDigits {n : ℕ} : ∀ c ∈ Nat.toDigits 10 n, c.isDigit = true :=
  fun _ hc => Nat.isDigit_of_mem_toDigits (by decide) (by decide) hc

theorem isDigit_replicate_zero {n : ℕ} : ∀ c ∈ List.replicate n '0', c.isDigit = true := by
  intro c hc
  rw [(List.mem_replicate.mp hc).2]
  decide

theorem isDigit_append {cs ds : List Char} (hc : ∀ c ∈ cs, c.isDigit = true)
    (hd : ∀ c ∈ ds, c.isDigit = true) : ∀ c ∈ cs ++ ds, c.isDigit = true :=
  fun c h => (List.mem_append.mp h).elim (hc c) (hd c)

theorem ofDigits_eq (cs : List Char) : ofDigits cs = Nat.ofDigitChars 10 cs 0 :=
  rfl

/-! ### Whole numbers -/

theorem readNat?_toDigits {limit n : ℕ} (h : n ≤ limit) :
    readNat? limit (Nat.toDigits 10 n) = some n := by
  obtain ⟨d, ds, hds⟩ := List.exists_cons_of_ne_nil (Nat.toDigits_ne_nil (n := n) (b := 10))
  have hdigit : d.isDigit = true := isDigit_toDigits d (by rw [hds]; exact List.mem_cons_self)
  have hplus : d ≠ '+' := by
    rintro rfl
    exact absurd hdigit (by decide)
  have hread : readDigits? (Nat.toDigits 10 n) = some n := by
    have hall : (Nat.toDigits 10 n).all Char.isDigit = true := List.all_eq_true.mpr isDigit_toDigits
    have hvalue : ofDigits (Nat.toDigits 10 n) = n := Nat.ofDigitChars_ten_toDigits
    rw [readDigits?, hall, hvalue, hds]
    rfl
  rw [readNat?]
  · rw [hread, Option.filter_some, if_pos (decide_eq_true h)]
  · intro rest heq
    rw [hds] at heq
    exact hplus (List.cons.inj heq).1

/-! ### Decimals -/

theorem takeWhile_isDigit {cs : List Char} (hc : ∀ c ∈ cs, c.isDigit = true) (rest : List Char)
    (hrest : ∀ c ∈ rest.head?, c.isDigit = false) :
    (cs ++ rest).takeWhile Char.isDigit = cs ∧ (cs ++ rest).dropWhile Char.isDigit = rest := by
  rw [List.takeWhile_append_of_pos hc, List.dropWhile_append_of_pos hc]
  cases rest with
  | nil => simp
  | cons c rest =>
    have hstop : ¬ c.isDigit = true := by
      rw [hrest c rfl]
      decide
    rw [List.takeWhile_cons_of_neg hstop, List.dropWhile_cons_of_neg hstop, List.append_nil]
    exact ⟨rfl, rfl⟩

theorem readDecimal?_whole (negative : Bool) {cs : List Char} (hne : cs ≠ [])
    (hc : ∀ c ∈ cs, c.isDigit = true) : readDecimal? negative cs = some ⟨negative, ofDigits cs, 0⟩ := by
  obtain ⟨htake, hdrop⟩ := takeWhile_isDigit hc [] (by simp)
  rw [List.append_nil] at htake hdrop
  simp [readDecimal?, htake, hdrop, hne, readExponent?]

theorem readDecimal?_point (negative : Bool) {cs ds : List Char} (hne : cs ≠ [])
    (hc : ∀ c ∈ cs, c.isDigit = true) (hd : ∀ c ∈ ds, c.isDigit = true) :
    readDecimal? negative (cs ++ '.' :: ds) = some ⟨negative, ofDigits (cs ++ ds), -ds.length⟩ := by
  obtain ⟨htake, hdrop⟩ := takeWhile_isDigit hc ('.' :: ds) (by simp)
  obtain ⟨htake', hdrop'⟩ := takeWhile_isDigit hd [] (by simp)
  rw [List.append_nil] at htake' hdrop'
  simp [readDecimal?, htake, hdrop, htake', hdrop', hne, readExponent?]

/-- A text that starts with a digit is neither signed nor a word. -/
theorem parse?_of_digit {d : Char} {cs : List Char} (hd : d.isDigit = true) :
    Numeral.parse? (d :: cs) = (readDecimal? false (d :: cs)).map .decimal := by
  have hsign : takeSign (d :: cs) = (false, d :: cs) := by
    rw [takeSign]
    · rintro cs' heq
      obtain rfl := (List.cons.inj heq).1
      exact absurd hd (by decide)
    · rintro cs' heq
      obtain rfl := (List.cons.inj heq).1
      exact absurd hd (by decide)
  have hlower : d.toLower.isDigit = true := by
    have : d.isUpper = false := by
      simp only [Char.isUpper, Char.isDigit] at hd ⊢
      grind
    rw [Char.toLower]
    grind [Char.isUpper]
  have hword {word : List Char} (hletter : word.head?.any Char.isDigit = false) :
      (d :: cs).map Char.toLower ≠ word := by
    rintro rfl
    rw [List.map_cons, List.head?_cons, Option.any_some, hlower] at hletter
    cases hletter
  rw [Numeral.parse?, hsign]
  dsimp only
  rw [if_neg (hword (by decide)), if_neg (not_or.mpr ⟨hword (by decide), hword (by decide)⟩)]

/-- The text of a decimal in positional notation is read as the decimal. -/
theorem parse?_positional (c : ℕ) (g : ℤ) :
    Numeral.parse? (positional c g).toList =
      some (.decimal ⟨false, c * 10 ^ g.toNat, -(-g).toNat⟩) := by
  have hself : Nat.ofDigitChars 10 (Nat.toDigits 10 c) 0 = c := Nat.ofDigitChars_ten_toDigits
  rw [positional]
  dsimp only
  split
  next hplaces =>
    have hdigits := isDigit_append (isDigit_toDigits (n := c)) (isDigit_replicate_zero (n := g.toNat))
    have hvalue : ofDigits (Nat.toDigits 10 c ++ List.replicate g.toNat '0') = c * 10 ^ g.toNat := by
      rw [ofDigits_eq, Nat.ofDigitChars_append, Nat.ofDigitChars_replicate_zero, hself, mul_comm]
    have hne : Nat.toDigits 10 c ++ List.replicate g.toNat '0' ≠ [] :=
      List.append_ne_nil_of_left_ne_nil Nat.toDigits_ne_nil _
    obtain ⟨d, ds, hds⟩ := List.exists_cons_of_ne_nil hne
    have hdigit : d.isDigit = true := hdigits d (by rw [hds]; exact List.mem_cons_self)
    rw [String.toList_ofList, hds, parse?_of_digit hdigit, ← hds, readDecimal?_whole false hne hdigits,
      hvalue, hplaces]
    rfl
  next hplaces =>
    -- With the zeros in front there are more digits than places, so that one stands before the point.
    obtain ⟨padded, hpadded⟩ : ∃ padded, padded =
      List.replicate ((-g).toNat + 1 - (Nat.toDigits 10 c).length) '0' ++ Nat.toDigits 10 c := ⟨_, rfl⟩
    have hdigits : ∀ c ∈ padded, c.isDigit = true := by
      rw [hpadded]
      exact isDigit_append isDigit_replicate_zero isDigit_toDigits
    have hlength : (-g).toNat < padded.length := by
      rw [hpadded, List.length_append, List.length_replicate]
      omega
    have hvalue : ofDigits padded = c := by
      rw [hpadded, ofDigits_eq, Nat.ofDigitChars_append, Nat.ofDigitChars_replicate_zero, mul_zero, hself]
    have hne : padded.take (padded.length - (-g).toNat) ≠ [] := by
      rw [ne_eq, List.take_eq_nil_iff, not_or]
      refine ⟨by omega, ?_⟩
      rintro rfl
      exact Nat.not_lt_zero _ hlength
    obtain ⟨d, ds, hds⟩ := List.exists_cons_of_ne_nil hne
    have hdigit := hdigits d (List.mem_of_mem_take (by rw [hds]; exact List.mem_cons_self))
    rw [← hpadded, String.toList_ofList, hds, List.cons_append, parse?_of_digit hdigit,
      ← List.cons_append, ← hds, readDecimal?_point false hne (fun x hx => hdigits x (List.mem_of_mem_take hx))
        (fun x hx => hdigits x (List.mem_of_mem_drop hx)),
      List.take_append_drop, hvalue, List.length_drop, show g.toNat = 0 by omega, pow_zero, mul_one,
      Nat.sub_sub_self hlength.le]
    rfl

theorem mem_positional {c : ℕ} {g : ℤ} {x : Char} (hx : x ∈ (positional c g).toList) :
    x.isDigit = true ∨ x = '.' := by
  rw [positional] at hx
  dsimp only at hx
  split at hx
  · rw [String.toList_ofList] at hx
    exact Or.inl (isDigit_append isDigit_toDigits isDigit_replicate_zero x hx)
  · have hdigits := isDigit_append
      (isDigit_replicate_zero (n := (-g).toNat + 1 - (Nat.toDigits 10 c).length))
      (isDigit_toDigits (n := c))
    rw [String.toList_ofList, List.mem_append, List.mem_cons] at hx
    rcases hx with hx | rfl | hx
    · exact Or.inl (hdigits x (List.mem_of_mem_take hx))
    · exact Or.inr rfl
    · exact Or.inl (hdigits x (List.mem_of_mem_drop hx))

/-- Where the powers of ten are of a size to be computed, a decimal is rounded once. -/
theorem Decimal.magnitude_eq (F : Format) {d : Decimal} (hle : d.exponent ≤ 0) (hge : -360 ≤ d.exponent) :
    d.magnitude F = F.rounded (d.digits * 10 ^ d.exponent) := by
  have hplaces : ¬ d.digits.log2 + 1100 < 3 * (-d.exponent).toNat := by omega
  rw [magnitude]
  split
  next h =>
    rw [h.resolve_right hplaces, Nat.cast_zero, zero_mul, Format.rounded_zero]
  next h =>
    have hden : 0 < Nat.pow 10 (-d.exponent).toNat := Nat.pow_pos (by decide)
    rw [if_neg (by omega), Format.nearest_eq_rounded _ hden, zpow_eq_div,
      show d.exponent.toNat = 0 by omega]
    simp [div_eq_mul_inv]

/-! ### Singles -/

/-- The decimal that a single is written as. -/
def writtenAs (p : ℕ) : Decimal :=
  let (c, g) := (Basin.ofPattern .single p).shortest .greater
  ⟨false, c * 10 ^ g.toNat, -(-g).toNat⟩

theorem renderSingle_of_pos {x : Float32} (hpos : 0 < x.toBits.toNat)
    (hfin : x.toBits.toNat < Format.single.infinity) :
    renderSingle x = positional ((Basin.ofPattern .single x.toBits.toNat).shortest .greater).1
      ((Basin.ofPattern .single x.toBits.toNat).shortest .greater).2 := by
  have hvalue := singleValue_of_lt hfin
  have hmod : x.toBits.toNat % Format.single.signBit = x.toBits.toNat :=
    Nat.mod_eq_of_lt (hfin.trans Format.single.infinity_lt_signBit)
  have hm := (Format.decode_fst_pos (F := .single) hpos).ne'
  rw [singleValue] at hvalue
  rw [renderSingle, render, hvalue]
  dsimp only
  rw [if_neg hm, hmod]
  rfl

theorem parse?_renderSingle {x : Float32} (hpos : 0 < x.toBits.toNat)
    (hfin : x.toBits.toNat < Format.single.infinity) :
    Numeral.parse? (renderSingle x).toList = some (.decimal (writtenAs x.toBits.toNat)) := by
  rw [renderSingle_of_pos hpos hfin]
  exact parse?_positional _ _

/-- The double that a single's decimal is read as, and the single that this narrows to. -/
theorem narrow_writtenAs {p : ℕ} (hp : 0 < p) (hfin : p < Format.single.infinity) :
    (writtenAs p).toDouble.toBits.toNat < Format.double.infinity ∧
      (narrow (writtenAs p).toDouble).toBits.toNat = if p = 0x15ae43fd then 0x15ae43fe else p := by
  obtain ⟨hround, hnear, hlow, hhigh⟩ := Basin.shortest_spec hp hfin .greater
  have hback := rounded_rat_rounded hp hfin hround hnear
  have hfinite := double_rounded_lt_infinity (by positivity) (hround.trans_lt hfin)
  have hdouble : (writtenAs p).toDouble.toBits.toNat = Format.double.rounded
      (((Basin.ofPattern .single p).shortest .greater).1 *
        10 ^ ((Basin.ofPattern .single p).shortest .greater).2) := by
    have hmagnitude := Decimal.magnitude_eq .double (d := writtenAs p)
      (by simp only [writtenAs]; omega) (by simp only [writtenAs]; omega)
    have hexact : ((writtenAs p).digits * 10 ^ (writtenAs p).exponent : ℚ) =
        ((Basin.ofPattern .single p).shortest .greater).1 *
          10 ^ ((Basin.ofPattern .single p).shortest .greater).2 := by
      rw [zpow_eq_div 10 ((Basin.ofPattern .single p).shortest .greater).2, writtenAs]
      push_cast
      rw [zpow_neg, zpow_natCast, mul_div_assoc']
      rfl
    rw [← hexact, ← hmagnitude]
    exact toNat_doubleOfPattern false (hmagnitude ▸ Format.rounded_le_infinity _)
  refine ⟨hdouble.trans_lt hfinite, ?_⟩
  split
  next h =>
    -- Here the double is the middle itself, and the tie goes to the even neighbour.
    rw [h]
    decide
  next h =>
    rcases hback with hsame | hmiss | hnearly
    · rw [toNat_narrow (hdouble.trans_lt hfinite), hdouble, hsame]
    · exact absurd hmiss h
    · -- The other candidate's decimal is a step away from the middle, so it comes back after all.
      rw [hnearly]
      decide

theorem eq_of_toNat_toBits {x y : Float32} (h : x.toBits.toNat = y.toBits.toNat) : x = y := by
  obtain ⟨⟨bits, hbits⟩⟩ := x
  obtain ⟨⟨bits', hbits'⟩⟩ := y
  obtain rfl := UInt32.toNat_inj.mp h
  rfl

/-- The single that comes back after one was written as a decimal and read as a double. -/
def reread (x : Float32) : Float32 :=
  if x.toBits = 0x15ae43fd then .ofBits 0x15ae43fe else x

theorem reread_eq_self_iff (x : Float32) : reread x = x ↔ x.toBits ≠ 0x15ae43fd := by
  rw [reread]
  split
  next h =>
    have hnext : (Float32.ofBits 0x15ae43fe).toBits = 0x15ae43fe := by decide
    refine iff_of_false (fun heq => ?_) (not_not.mpr h)
    rw [← heq, hnext] at h
    exact absurd h (by decide)
  next h => exact iff_of_true rfl h

/-- A single that is not below zero is zero, or zero with a sign, or has a pattern that is written. -/
theorem IsNonneg.cases {x : Float32} (hx : IsNonneg x) :
    x = .ofBits 0 ∨ x = .ofBits 0x80000000 ∨
      0 < x.toBits.toNat ∧ x.toBits.toNat < Format.single.infinity := by
  rcases (isNonneg_iff x).mp hx with hfin | hzero
  · rcases Nat.eq_zero_or_pos x.toBits.toNat with hzero | hpos
    · exact Or.inl (eq_of_toNat_toBits hzero)
    · exact Or.inr (Or.inr ⟨hpos, hfin⟩)
  · exact Or.inr (Or.inl (eq_of_toNat_toBits hzero))

theorem renderSingle_zero : renderSingle (.ofBits 0) = "0" := by
  decide

theorem renderSingle_negative_zero : renderSingle (.ofBits 0x80000000) = "-0" := by
  decide

theorem mem_renderSingle {x : Float32} (hx : IsNonneg x) {c : Char} (hc : c ∈ (renderSingle x).toList) :
    c.isDigit = true ∨ c = '.' ∨ c = '-' := by
  rcases hx.cases with rfl | rfl | ⟨hpos, hfin⟩
  · rw [renderSingle_zero] at hc
    obtain rfl : c = '0' := List.mem_singleton.mp hc
    exact Or.inl (by decide)
  · rw [renderSingle_negative_zero] at hc
    obtain rfl | rfl : c = '-' ∨ c = '0' := List.mem_pair.mp hc
    · exact Or.inr (Or.inr rfl)
    · exact Or.inl (by decide)
  · rw [renderSingle_of_pos hpos hfin] at hc
    exact (mem_positional hc).imp_right Or.inl

/-- The text of a single that is not below zero names a double in the range of a time scale. -/
theorem exists_numeral_renderSingle {x : Float32} (hx : IsNonneg x) :
    ∃ n, Numeral.parse? (renderSingle x).toList = some n ∧
      (n.toDouble.isFinite = true ∧ ¬ n.toDouble < doubleOfInt 0) ∧ narrow n.toDouble = reread x := by
  rcases hx.cases with rfl | rfl | ⟨hpos, hfin⟩
  · refine ⟨.decimal ⟨false, 0, 0⟩, by rw [renderSingle_zero]; rfl, ?_, by decide⟩
    rw [isFinite_and_not_neg_iff]
    decide
  · -- Zero with a sign is written with it, and read with it.
    refine ⟨.decimal ⟨true, 0, 0⟩, by rw [renderSingle_negative_zero]; rfl, ?_, by decide⟩
    rw [isFinite_and_not_neg_iff]
    decide
  · obtain ⟨hfinite, hnarrow⟩ := narrow_writtenAs hpos hfin
    refine ⟨.decimal (writtenAs x.toBits.toNat), parse?_renderSingle hpos hfin,
      (isFinite_and_not_neg_iff _).mpr (Or.inl hfinite), eq_of_toNat_toBits ?_⟩
    rw [Numeral.toDouble, hnarrow, reread]
    have hbits : x.toBits = 0x15ae43fd ↔ x.toBits.toNat = 0x15ae43fd := UInt32.toNat_inj.symm
    by_cases hmiss : x.toBits = 0x15ae43fd
    · rw [if_pos hmiss, if_pos (hbits.mp hmiss)]
      decide
    · rw [if_neg hmiss, if_neg (mt hbits.mpr hmiss)]

end TileWorld.Number

import CppPlay.IntegralString.OrderPreservation

/-!
# The reserved value of `IntegralValueTMS`

An invalid string is told from a valid one by its value only: the largest one, or
zero where short strings are refused.  The constructor throws for a valid string
too when its digits add up to that value.
-/

namespace CppPlay.IntegralString

open CppPlay.Lib

namespace IntegralValueTMS

variable (c : IntegralValueTMS)

/-- The run-time constructor throws for the invalid strings and for no others. -/
def RejectsExactly : Prop :=
  ∀ s, (∃ e, c.runtimeInit s = .error e) ↔ c.isValid s = false

/-- Digits of the window that add up to the largest value, with powers that the
table holds and `T` may cut. -/
def MaxIsASum : Prop :=
  c.T.bits ≤ sizeBits ∧ c.Base ^ (c.Size - 1) < 2 ^ sizeBits ∧
    ∃ ds : List ℕ, ds.length ≤ c.Size ∧ (∀ d ∈ ds, d < c.digitCount) ∧
      Nat.ofDigits c.Base ds % 2 ^ c.T.bits = 2 ^ c.T.bits - 1

variable {c}

theorem throws_iff (hthrow : c.throwOnInvalid = true) {s : List CppChar} :
    (∃ e, c.runtimeInit s = .error e) ↔
      c.isValid s = false ∨ c.isValid s = true ∧ c.encoded s = c.invalidValue := by
  cases hvalid : c.isValid s with
  | false => simp [runtimeInit, hvalid, hthrow]
  | true =>
      have hsame : c.runtimeInit s = if c.encoded s = c.invalidValue then
          .error (.runtimeError "Invalid input string") else .ok (c.encoded s) := by
        simp only [runtimeInit, hvalid, hthrow, if_true, and_true]
        rfl
      rw [hsame]
      by_cases hreserved : c.encoded s = c.invalidValue <;> simp [hreserved]

theorem rejectsExactly_iff_encoded (hthrow : c.throwOnInvalid = true) :
    c.RejectsExactly ↔ ∀ s, c.isValid s = true → c.encoded s ≠ c.invalidValue := by
  simp only [RejectsExactly, throws_iff hthrow]
  constructor
  · intro hexact s hvalid hreserved
    exact absurd ((hexact s).mp (Or.inr ⟨hvalid, hreserved⟩)) (by simp [hvalid])
  · intro hnone s
    constructor
    · rintro (hinvalid | ⟨hvalid, hreserved⟩)
      · exact hinvalid
      · exact absurd hreserved (hnone s hvalid)
    · exact Or.inl

theorem inAlphabet_of_isValid {s : List CppChar} (hvalid : c.isValid s = true) :
    c.InAlphabet s := by
  rw [isValid_iff] at hvalid
  exact ⟨hvalid.1, hvalid.2.2⟩

/-! ## Zero as the reserved value -/

theorem pack_zeros (w : WrappedSums) (n : ℕ) : w.pack (List.replicate n 0) = 0 := by
  have hzeros := WrappedSums.pack_zeros_append (w := w) n []
  rwa [List.append_nil] at hzeros

theorem rejectsExactly_iff_of_full (hthrow : c.throwOnInvalid = true)
    (hfull : c.isShortInputOk = false) : c.RejectsExactly ↔ c.digitCount = 0 := by
  rw [rejectsExactly_iff_encoded hthrow]
  constructor
  · intro hnone
    by_contra hsome
    have hdigit : ∀ d ∈ List.replicate c.Size 0, d < c.digitCount := by
      intro d hd
      rw [List.eq_of_mem_replicate hd]
      omega
    obtain ⟨hs, hdigits⟩ := inAlphabet_charsOf hdigit (by rw [List.length_replicate])
    apply hnone ((List.replicate c.Size 0).map c.charOf)
    · rw [isValid_iff]
      exact ⟨hs.1, Or.inr (by simp), hs.2⟩
    · apply BitVec.eq_of_toNat_eq
      rw [toNat_encoded hs.2, hdigits, pack_zeros, invalidValue, hfull]
      rfl
  · intro hzero s hvalid
    rw [isValid_iff, hfull] at hvalid
    obtain ⟨-, hlength, hinside⟩ := hvalid
    have hpos : 0 < s.length := by
      rw [hlength.resolve_left Bool.false_ne_true]
      exact c.T.size_pos
    have hlt := digit_lt (hinside _ (List.head_mem (List.ne_nil_of_length_pos hpos)))
    omega

/-! ## The largest value as the reserved one -/

theorem pack_of_cut (hcut : 2 ^ sizeBits ≤ c.Base ^ (c.Size - 1)) (ds : List ℕ) :
    c.weights.pack ds = 0 := by
  induction ds with
  | nil => rfl
  | cons d ds ih =>
      have hweight : c.weights.weight ds.length = 0 := by
        simp only [weights, pows_getD_of_cut hcut, Nat.zero_mod]
      rw [WrappedSums.pack, ih, WrappedSums.term, hweight, Nat.mul_zero, Nat.zero_mod,
        Nat.zero_add, Nat.zero_mod]

theorem pack_eq_ofDigits (hbits : c.T.bits ≤ sizeBits)
    (hfits : c.Base ^ (c.Size - 1) < 2 ^ sizeBits) {ds : List ℕ} (hlength : ds.length ≤ c.Size) :
    c.weights.pack ds = Nat.ofDigits c.Base ds.reverse % 2 ^ c.T.bits := by
  induction ds with
  | nil => rfl
  | cons d ds ih =>
      rw [List.length_cons] at hlength
      have hterm : c.weights.term d ds.length = d * c.Base ^ ds.length % 2 ^ c.T.bits := by
        rw [WrappedSums.term]
        simp only [weights, min_eq_right hbits]
        rw [pows_getD hfits (by omega), Nat.mul_mod_mod]
      rw [WrappedSums.pack, ih (by omega), hterm, List.reverse_cons, Nat.ofDigits_append,
        List.length_reverse, Nat.ofDigits_singleton, mul_comm (c.Base ^ _)]
      exact (Nat.add_mod _ _ _).symm

/-- A type wider than `size_t` has more room than the products need. -/
theorem pack_lt_of_wide (hwide : sizeBits < c.T.bits) {ds : List ℕ}
    (hlength : ds.length ≤ c.Size) : c.weights.pack ds < 2 ^ c.T.bits - 1 := by
  have hsmall : c.weights.pack ds ≤ ds.length * 2 ^ sizeBits := by
    clear hlength
    induction ds with
    | nil => simp [WrappedSums.pack]
    | cons d ds ih =>
        have hterm : c.weights.term d ds.length < 2 ^ sizeBits := by
          have hlt := Nat.mod_lt (d * c.weights.weight ds.length)
            (WrappedSums.productMod_pos (w := c.weights))
          exact hlt.trans_le (Nat.pow_le_pow_right (by norm_num) (min_le_left _ _))
        rw [WrappedSums.pack, List.length_cons, Nat.succ_mul]
        exact (Nat.mod_le _ _).trans (by omega)
  have hroom : ds.length * 2 ^ sizeBits + 1 < 2 ^ c.T.bits := by
    have hsize : c.Size * 8 = c.T.bits := rfl
    rw [← hsize] at hwide ⊢
    simp only [sizeBits] at hwide ⊢
    obtain ⟨k, hk⟩ := Nat.exists_eq_add_of_le (show 9 ≤ c.Size by omega)
    have hpow : 2 ^ (c.Size * 8) = 2 ^ 64 * (256 * 2 ^ (8 * k)) := by
      rw [hk, show (9 + k) * 8 = 64 + (8 + 8 * k) by ring, pow_add, pow_add]
      norm_num
    have hself : 8 * k < 2 ^ (8 * k) := Nat.lt_two_pow_self
    rw [hpow, mul_comm ds.length]
    have hmore : ds.length + 1 ≤ 256 * 2 ^ (8 * k) := by omega
    calc 2 ^ 64 * ds.length + 1 < 2 ^ 64 * (ds.length + 1) := by omega
      _ ≤ 2 ^ 64 * (256 * 2 ^ (8 * k)) := Nat.mul_le_mul_left _ hmore
  omega

theorem encoded_eq_max_iff {s : List CppChar} (hs : c.InAlphabet s) :
    c.encoded s = c.T.max ↔ c.weights.pack (s.map c.digit) = 2 ^ c.T.bits - 1 := by
  rw [← BitVec.toNat_inj, toNat_encoded hs.2, UnsignedType.max, BitVec.toNat_allOnes]

theorem bits_pos : 0 < c.T.bits := Nat.mul_pos c.T.size_pos (by norm_num)

theorem rejectsExactly_iff_of_short (hthrow : c.throwOnInvalid = true)
    (hshort : c.isShortInputOk = true) : c.RejectsExactly ↔ ¬ c.MaxIsASum := by
  have hreserved : c.invalidValue = c.T.max := by rw [invalidValue, hshort, if_pos rfl]
  rw [rejectsExactly_iff_encoded hthrow, hreserved]
  constructor
  · rintro hnone ⟨hbits, hfits, ds, hlength, hdigits, hsum⟩
    have hreverse : ∀ d ∈ ds.reverse, d < c.digitCount := fun d hd =>
      hdigits d (List.mem_reverse.mp hd)
    obtain ⟨hs, hsDigits⟩ := inAlphabet_charsOf hreverse (by rwa [List.length_reverse])
    apply hnone (ds.reverse.map c.charOf)
    · rw [isValid_iff]
      exact ⟨hs.1, Or.inl hshort, hs.2⟩
    · rw [encoded_eq_max_iff hs, hsDigits,
        pack_eq_ofDigits hbits hfits (by rwa [List.length_reverse]), List.reverse_reverse]
      exact hsum
  · intro hnone s hvalid hmax
    have hs := inAlphabet_of_isValid hvalid
    have hlength : (s.map c.digit).length ≤ c.Size := by rw [List.length_map]; exact hs.1
    rw [encoded_eq_max_iff hs] at hmax
    have hpow : 1 < 2 ^ c.T.bits := Nat.one_lt_two_pow bits_pos.ne'
    by_cases hbits : c.T.bits ≤ sizeBits
    · by_cases hfits : c.Base ^ (c.Size - 1) < 2 ^ sizeBits
      · rw [pack_eq_ofDigits hbits hfits hlength] at hmax
        refine hnone ⟨hbits, hfits, (s.map c.digit).reverse, by simpa using hs.1, ?_, hmax⟩
        intro d hd
        rcases List.mem_map.mp (List.mem_reverse.mp hd) with ⟨ch, hch, rfl⟩
        exact digit_lt (hs.2 ch hch)
      · rw [pack_of_cut (not_lt.mp hfits)] at hmax
        omega
    · have hlt := pack_lt_of_wide (not_le.mp hbits) hlength
      omega

/-- The constructor throws for just the invalid strings exactly when no valid string
adds up to the reserved value: there is none at all where zero is reserved, and no
sum is the largest value otherwise. -/
theorem rejectsExactly_iff (c : IntegralValueTMS) (hthrow : c.throwOnInvalid = true) :
    c.RejectsExactly ↔
      (c.isShortInputOk = false → c.digitCount = 0) ∧
        (c.isShortInputOk = true → ¬ c.MaxIsASum) := by
  cases hshort : c.isShortInputOk with
  | false => simp [rejectsExactly_iff_of_full hthrow hshort]
  | true => simp [rejectsExactly_iff_of_short hthrow hshort]

theorem two_mul_ofDigits_lt {B : ℕ} (hB : B ≤ 256) {ds : List ℕ} (hds : ∀ d ∈ ds, d < 128) :
    2 * Nat.ofDigits B ds < 256 ^ ds.length := by
  induction ds with
  | nil => simp
  | cons d ds ih =>
      rw [List.forall_mem_cons] at hds
      have hrest : B * Nat.ofDigits B ds ≤ 256 * Nat.ofDigits B ds := Nat.mul_le_mul_right _ hB
      have hless := ih hds.2
      rw [Nat.ofDigits_cons, List.length_cons, pow_succ']
      omega

/-- With at most 256 characters the digits never reach the largest value. -/
theorem not_maxIsASum_of_base_le (hbase : c.Base ≤ 256) : ¬ c.MaxIsASum := by
  rintro ⟨-, -, ds, hlength, hdigits, hsum⟩
  have hascii : ∀ d ∈ ds, d < 128 := by
    intro d hd
    have hcount := hdigits d hd
    rw [digitCount] at hcount
    omega
  have hlt := two_mul_ofDigits_lt hbase hascii
  have hpow : 256 ^ ds.length ≤ 2 ^ c.T.bits := by
    rw [UnsignedType.bits, Nat.mul_comm, pow_mul]
    exact Nat.pow_le_pow_right (by norm_num) hlength
  have hone : 1 < 2 ^ c.T.bits := Nat.one_lt_two_pow bits_pos.ne'
  rw [Nat.mod_eq_of_lt (by omega)] at hsum
  omega

def decimalDigits : IntegralValueTMS where
  T := .uint32
  rangeBegin := 48
  rangeEnd := 58
  begin_lt_end := by decide
  end_lt := by decide
  isShortInputOk := true
  throwOnInvalid := true

theorem rejectsExactly_decimalDigits : decimalDigits.RejectsExactly :=
  (rejectsExactly_iff decimalDigits rfl).mpr
    ⟨fun hfull => absurd hfull (by decide), fun _ => not_maxIsASum_of_base_le (by decide)⟩

/-- `"0000"` is valid and its value is the reserved one. -/
theorem not_rejectsExactly_zeros :
    ¬ ∀ c : IntegralValueTMS, c.throwOnInvalid = true → c.RejectsExactly := by
  intro hexact
  have hthrows := (hexact { decimalDigits with isShortInputOk := false } rfl
    [0x30, 0x30, 0x30, 0x30]).mp ⟨.runtimeError "Invalid input string", by decide⟩
  exact absurd hthrows (by decide)

end IntegralValueTMS

end CppPlay.IntegralString

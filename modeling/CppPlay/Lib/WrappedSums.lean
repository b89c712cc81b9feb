import Mathlib.Data.List.Lex
import Mathlib.Tactic

/-!
# Weighted sums of digits in machine words

A list of digits, the first one the highest, is added up with a weight for each
place; every product is cut to one modulus and every sum to another one.  The sum
compares lists of one length lexicographically exactly when nothing is cut and
each weight is above all that the lower places can hold.
-/

namespace CppPlay.Lib

/-- Products are cut to `productMod` and sums to `sumMod`. -/
structure WrappedSums where
  weight : ℕ → ℕ
  productMod : ℕ
  sumMod : ℕ
  productMod_le : productMod ≤ sumMod
  weight_lt : ∀ p, weight p < productMod

namespace WrappedSums

variable (w : WrappedSums)

def term (d p : ℕ) : ℕ := d * w.weight p % w.productMod

def pack : List ℕ → ℕ
  | [] => 0
  | d :: ds => (pack ds + w.term d ds.length) % w.sumMod

def below (n : ℕ) : ℕ := ((List.range n).map w.weight).sum

/-- With digits up to `top`, `n` places hold their sums and keep them apart. -/
def Fits (top n : ℕ) : Prop :=
  ∀ p < n, top * w.below p < w.weight p ∧ top * w.weight p < w.productMod ∧
    top * w.below (p + 1) < w.sumMod

variable {w} {top n : ℕ}

theorem below_succ (n : ℕ) : w.below (n + 1) = w.below n + w.weight n := by
  simp [below, List.range_succ]

theorem term_zero (p : ℕ) : w.term 0 p = 0 := by simp [term]

/-! ## Weights that fit -/

theorem term_eq (hfits : w.Fits top n) {d p : ℕ} (hd : d ≤ top) (hp : p < n) :
    w.term d p = d * w.weight p :=
  Nat.mod_eq_of_lt ((Nat.mul_le_mul_right _ hd).trans_lt (hfits p hp).2.1)

theorem pack_cons_eq (hfits : w.Fits top n) {d : ℕ} {ds : List ℕ} (hd : d ≤ top)
    (hlength : ds.length < n) (hrest : w.pack ds ≤ top * w.below ds.length) :
    w.pack (d :: ds) = w.pack ds + d * w.weight ds.length ∧
      w.pack (d :: ds) ≤ top * w.below (ds.length + 1) := by
  have hmul : d * w.weight ds.length ≤ top * w.weight ds.length := Nat.mul_le_mul_right _ hd
  have hsum := (hfits ds.length hlength).2.2
  rw [below_succ, Nat.mul_add] at hsum ⊢
  rw [pack, term_eq hfits hd hlength, Nat.mod_eq_of_lt (by omega)]
  exact ⟨rfl, by omega⟩

theorem pack_le (hfits : w.Fits top n) {ds : List ℕ} (hds : ∀ d ∈ ds, d ≤ top)
    (hlength : ds.length ≤ n) : w.pack ds ≤ top * w.below ds.length := by
  induction ds with
  | nil => simp [pack]
  | cons d ds ih =>
      rw [List.forall_mem_cons] at hds
      rw [List.length_cons] at hlength
      exact (pack_cons_eq hfits hds.1 hlength (ih hds.2 (by omega))).2

theorem pack_cons (hfits : w.Fits top n) {d : ℕ} {ds : List ℕ} (hds : ∀ e ∈ d :: ds, e ≤ top)
    (hlength : ds.length < n) : w.pack (d :: ds) = w.pack ds + d * w.weight ds.length := by
  rw [List.forall_mem_cons] at hds
  exact (pack_cons_eq hfits hds.1 hlength (pack_le hfits hds.2 hlength.le)).1

theorem pack_lt_iff (hfits : w.Fits top n) {ds es : List ℕ} (hds : ∀ d ∈ ds, d ≤ top)
    (hes : ∀ e ∈ es, e ≤ top) (hsame : ds.length = es.length) (hlength : ds.length ≤ n) :
    w.pack ds < w.pack es ↔ ds < es := by
  induction ds generalizing es with
  | nil =>
      rw [List.length_nil, eq_comm, List.length_eq_zero_iff] at hsame
      simp [hsame, pack]
  | cons d ds ih =>
      cases es with
      | nil => simp at hsame
      | cons e es =>
          have hrest := ih (List.forall_mem_cons.mp hds).2 (List.forall_mem_cons.mp hes).2
            (by simpa using hsame) (by rw [List.length_cons] at hlength; omega)
          have hlt : ds.length < n := hlength
          have hlength' : es.length = ds.length := by simpa using hsame.symm
          have hpd := pack_le hfits (List.forall_mem_cons.mp hds).2 hlt.le
          have hpe := pack_le hfits (List.forall_mem_cons.mp hes).2 (hlength' ▸ hlt.le)
          have hweight := (hfits _ hlt).1
          rw [hlength'] at hpe
          rw [pack_cons hfits hds hlt, pack_cons hfits hes (hlength' ▸ hlt), hlength',
            List.cons_lt_cons_iff]
          rcases lt_trichotomy d e with hde | hde | hde
          · have hmul : (d + 1) * w.weight ds.length ≤ e * w.weight ds.length :=
              Nat.mul_le_mul_right _ hde
            rw [Nat.succ_mul] at hmul
            exact iff_of_true (by omega) (Or.inl hde)
          · rw [hde, ← hrest]
            simp
          · have hmul : (e + 1) * w.weight ds.length ≤ d * w.weight ds.length :=
              Nat.mul_le_mul_right _ hde
            rw [Nat.succ_mul] at hmul
            exact iff_of_false (by omega) (by omega)

/-! ## Sums that keep the order -/

theorem productMod_pos : 0 < w.productMod := (Nat.zero_le _).trans_lt (w.weight_lt 0)

theorem pack_lt (ds : List ℕ) : w.pack ds < w.sumMod := by
  have hpos : 0 < w.sumMod := productMod_pos.trans_le w.productMod_le
  cases ds with
  | nil => exact hpos
  | cons d ds => exact Nat.mod_lt _ hpos

theorem term_lt (d p : ℕ) : w.term d p < w.sumMod :=
  (Nat.mod_lt _ productMod_pos).trans_le w.productMod_le

theorem pack_zeros_append (k : ℕ) (ds : List ℕ) :
    w.pack (List.replicate k 0 ++ ds) = w.pack ds := by
  induction k with
  | zero => rfl
  | succ k ih =>
      rw [List.replicate_succ, List.cons_append, pack, term_zero, Nat.add_zero, ih,
        Nat.mod_eq_of_lt (pack_lt ds)]

theorem pack_cons_zeros (d p : ℕ) : w.pack (d :: List.replicate p 0) = w.term d p := by
  have hzeros := pack_zeros_append (w := w) p []
  rw [List.append_nil] at hzeros
  rw [pack, hzeros, List.length_replicate, pack, Nat.zero_add, Nat.mod_eq_of_lt (term_lt d p)]

variable (w top n) in
def KeepsOrder : Prop :=
  ∀ ds es : List ℕ, (∀ d ∈ ds, d ≤ top) → (∀ e ∈ es, e ≤ top) → ds.length = n →
    es.length = n → ds < es → w.pack ds < w.pack es

theorem KeepsOrder.of_le (horder : w.KeepsOrder top n) {p : ℕ} (hp : p ≤ n) :
    w.KeepsOrder top p := by
  intro ds es hds hes hlength hlength' hlt
  rw [← pack_zeros_append (n - p) ds, ← pack_zeros_append (n - p) es]
  have hpad : ∀ ds : List ℕ, (∀ d ∈ ds, d ≤ top) →
      ∀ d ∈ List.replicate (n - p) 0 ++ ds, d ≤ top := by
    intro ds hds d hd
    rcases List.mem_append.mp hd with hzero | hmem
    · rw [List.eq_of_mem_replicate hzero]
      exact Nat.zero_le _
    · exact hds d hmem
  apply horder _ _ (hpad ds hds) (hpad es hes)
  · rw [List.length_append, List.length_replicate, hlength]
    omega
  · rw [List.length_append, List.length_replicate, hlength']
    omega
  · exact List.append_left_lt hlt

theorem replicate_lt_replicate (htop : 0 < top) {p : ℕ} (hp : 0 < p) :
    List.replicate p 0 < List.replicate p top := by
  obtain ⟨q, rfl⟩ := Nat.exists_eq_succ_of_ne_zero hp.ne'
  rw [List.replicate_succ, List.replicate_succ, List.cons_lt_cons_iff]
  exact Or.inl htop

/-- Counting the highest digit up, no product and no sum can be cut: the cut one would
be smaller than the one before. -/
theorem KeepsOrder.place_fits (htop : 0 < top) {p : ℕ} (horder : w.KeepsOrder top (p + 1))
    (htops : w.pack (List.replicate p top) = top * w.below p) {d : ℕ} (hd : d ≤ top) :
    d * w.weight p < w.productMod ∧ d * w.weight p + top * w.below p < w.sumMod ∧
      (0 < d → top * w.below p < w.weight p) := by
  have hdigits : ∀ d ≤ top, ∀ x ≤ top, ∀ e ∈ d :: List.replicate p x, e ≤ top := by
    intro d hd x hx e he
    rcases List.mem_cons.mp he with rfl | hmem
    · exact hd
    · rw [List.eq_of_mem_replicate hmem]
      exact hx
  have hbelow : top * w.below p < w.sumMod := htops ▸ pack_lt _
  have hfull : ∀ d, w.pack (d :: List.replicate p top) =
      (top * w.below p + w.term d p) % w.sumMod := by
    intro d
    rw [pack, htops, List.length_replicate]
  induction d with
  | zero =>
      rw [Nat.zero_mul, Nat.zero_add]
      exact ⟨productMod_pos, hbelow, fun hpos => absurd hpos (lt_irrefl 0)⟩
  | succ d ih =>
      obtain ⟨hproduct, hsum, -⟩ := ih (by omega)
      have hterm : w.term d p = d * w.weight p := Nat.mod_eq_of_lt hproduct
      have hup := horder (d :: List.replicate p top) ((d + 1) :: List.replicate p 0)
        (hdigits d (by omega) top le_rfl) (hdigits (d + 1) hd 0 (Nat.zero_le _)) (by simp)
        (by simp) (List.cons_lt_cons_iff.mpr (Or.inl (Nat.lt_succ_self d)))
      rw [hfull, hterm, Nat.mod_eq_of_lt (by omega), pack_cons_zeros] at hup
      have hweight := w.weight_lt p
      have hnext : (d + 1) * w.weight p = d * w.weight p + w.weight p := Nat.succ_mul _ _
      have hfits : (d + 1) * w.weight p < w.productMod := by
        by_contra hcut
        have hmod : w.term (d + 1) p = (d + 1) * w.weight p - w.productMod := by
          rw [term, Nat.mod_eq_sub_mod (not_lt.mp hcut), Nat.mod_eq_of_lt (by omega)]
        omega
      have hterm' : w.term (d + 1) p = (d + 1) * w.weight p := Nat.mod_eq_of_lt hfits
      refine ⟨hfits, ?_, fun _ => by omega⟩
      by_contra hcut
      have hle := w.productMod_le
      rcases Nat.eq_zero_or_pos p with rfl | hp
      · simp only [below, List.range_zero, List.map_nil, List.sum_nil, Nat.mul_zero] at hcut
        omega
      · have hright := horder ((d + 1) :: List.replicate p 0) ((d + 1) :: List.replicate p top)
          (hdigits _ hd 0 (Nat.zero_le _)) (hdigits _ hd top le_rfl) (by simp) (by simp)
          (List.cons_lt_cons_iff.mpr (Or.inr ⟨rfl, replicate_lt_replicate htop hp⟩))
        rw [hfull, hterm', pack_cons_zeros, hterm', Nat.mod_eq_sub_mod (by omega),
          Nat.mod_eq_of_lt (by omega)] at hright
        omega

theorem fits_of_keepsOrder (htop : 0 < top) (horder : w.KeepsOrder top n) : w.Fits top n := by
  have hplaces : ∀ p ≤ n, w.Fits top p ∧
      w.pack (List.replicate p top) = top * w.below p := by
    intro p
    induction p with
    | zero =>
        intro _
        exact ⟨fun q hq => absurd hq (Nat.not_lt_zero q), by simp [pack, below]⟩
    | succ p ih =>
        intro hp
        obtain ⟨hfits, htops⟩ := ih (by omega)
        obtain ⟨hproduct, hsum, hbelow⟩ :=
          (horder.of_le hp).place_fits htop htops (le_refl top)
        have htotal : top * w.below (p + 1) = top * w.weight p + top * w.below p := by
          rw [below_succ, Nat.mul_add, Nat.add_comm]
        constructor
        · intro q hq
          rcases Nat.lt_succ_iff_lt_or_eq.mp hq with hless | rfl
          · exact hfits q hless
          · exact ⟨hbelow htop, hproduct, htotal ▸ hsum⟩
        · rw [List.replicate_succ, pack, htops, List.length_replicate, term,
            Nat.mod_eq_of_lt hproduct, Nat.mod_eq_of_lt (by omega)]
          omega
  exact (hplaces n le_rfl).1

end WrappedSums

end CppPlay.Lib

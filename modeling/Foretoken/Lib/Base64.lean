import Mathlib.Tactic

/-!
Base64 with the URL-safe alphabet and without padding.
-/

namespace Foretoken.Base64

open List Option

variable {n : ℕ} {ns : List ℕ}

/-- The character code of a value below 64: the capital letters, the small letters, the
digits, `-` and `_`. -/
def symbolCode (n : ℕ) : ℕ :=
  if n < 26 then n + 65 else if n < 52 then n + 71 else if n < 62 then n - 4
  else if n = 62 then 45 else 95

/-- The symbol of a value below 64. -/
def symbol (n : ℕ) : Char := Char.ofNat (symbolCode n)

/-- The value of a symbol. -/
def value (c : Char) : Option ℕ :=
  let code := c.toNat
  if 65 ≤ code ∧ code ≤ 90 then some (code - 65)
  else if 97 ≤ code ∧ code ≤ 122 then some (code - 71)
  else if 48 ≤ code ∧ code ≤ 57 then some (code + 4)
  else if code = 45 then some 62
  else if code = 95 then some 63
  else none

/-- The six-bit groups of a list of bytes, the last one filled with zero bits. -/
def sextets : List UInt8 → List ℕ
  | [] => []
  | [a] => [a.toNat / 4, a.toNat % 4 * 16]
  | [a, b] => [a.toNat / 4, a.toNat % 4 * 16 + b.toNat / 16, b.toNat % 16 * 4]
  | a :: b :: c :: rest =>
    (a.toNat / 4) :: (a.toNat % 4 * 16 + b.toNat / 16) :: (b.toNat % 16 * 4 + c.toNat / 64) ::
      (c.toNat % 64) :: sextets rest

/-- The bytes of a list of six-bit groups; `none` if no list of bytes has these groups. -/
def ofSextets : List ℕ → Option (List UInt8)
  | [] => some []
  | [_] => none
  | [p, q] => if q % 16 = 0 then some [UInt8.ofNat (p * 4 + q / 16)] else none
  | [p, q, r] =>
    if r % 4 = 0 then
      some [UInt8.ofNat (p * 4 + q / 16), UInt8.ofNat (q % 16 * 16 + r / 4)]
    else none
  | p :: q :: r :: s :: rest =>
    (ofSextets rest).map fun bytes =>
      UInt8.ofNat (p * 4 + q / 16) :: UInt8.ofNat (q % 16 * 16 + r / 4) ::
        UInt8.ofNat (r % 4 * 64 + s) :: bytes

/-- The text of a list of bytes. -/
def encode (bytes : List UInt8) : String := String.ofList ((sextets bytes).map symbol)

/-- The bytes of a text. -/
def decode (text : String) : Option (List UInt8) := (text.toList.mapM value).bind ofSextets

lemma value_eq_some {c : Char} (h : value c = some n) : n < 64 ∧ symbol n = c := by
  have hcode : n < 64 ∧ symbolCode n = c.toNat := by
    rw [value] at h
    split_ifs at h
    all_goals
      cases h
      rw [symbolCode]
      split_ifs <;> omega
  rw [symbol, hcode.2, Char.ofNat_toNat]
  exact ⟨hcode.1, rfl⟩

lemma mapM_value {cs : List Char} (h : cs.mapM value = some ns) :
    (∀ n ∈ ns, n < 64) ∧ ns.map symbol = cs := by
  induction cs generalizing ns with
  | nil =>
    obtain rfl : ns = [] := by simpa using h.symm
    simp
  | cons c cs ih =>
    rw [mapM_cons] at h
    obtain ⟨n, hn, h⟩ := bind_eq_some_iff.mp h
    obtain ⟨rest, hrest, h⟩ := bind_eq_some_iff.mp h
    obtain rfl : n :: rest = ns := by simpa using h
    obtain ⟨hlt, hsym⟩ := value_eq_some hn
    obtain ⟨hlts, hsyms⟩ := ih hrest
    exact ⟨forall_mem_cons.mpr ⟨hlt, hlts⟩, by rw [map_cons, hsym, hsyms]⟩

private lemma toNat_ofNat (h : n < 256) : (UInt8.ofNat n).toNat = n :=
  UInt8.toNat_ofNat_of_lt' h

/-- Accepted groups are the groups of the bytes. -/
lemma sextets_ofSextets {bytes : List UInt8} (hlt : ∀ n ∈ ns, n < 64)
    (h : ofSextets ns = some bytes) : sextets bytes = ns := by
  induction ns using ofSextets.induct generalizing bytes with
  | case1 =>
    obtain rfl : [] = bytes := by simpa [ofSextets] using h
    rfl
  | case2 => simp [ofSextets] at h
  | case3 p q hzero =>
    rw [ofSextets, if_pos hzero] at h
    cases h
    simp only [mem_cons, forall_eq_or_imp] at hlt
    rw [sextets, toNat_ofNat (by omega)]
    congr 2 <;> omega
  | case4 p q hzero | case6 p q r hzero => simp [ofSextets, hzero] at h
  | case5 p q r hzero =>
    rw [ofSextets, if_pos hzero] at h
    cases h
    simp only [mem_cons, forall_eq_or_imp] at hlt
    rw [sextets, toNat_ofNat (by omega), toNat_ofNat (by omega)]
    congr 3 <;> omega
  | case7 p q r s rest ih =>
    obtain ⟨tail, htail, rfl⟩ := map_eq_some_iff.mp h
    simp only [mem_cons, forall_eq_or_imp] at hlt
    rw [sextets, toNat_ofNat (by omega), toNat_ofNat (by omega), toNat_ofNat (by omega),
      ih hlt.2.2.2.2 htail]
    congr 4 <;> omega

/-- **What is decoded is the encoding of the bytes returned.** -/
theorem encode_of_decode {text : String} {bs : List UInt8} (h : decode text = some bs) :
    encode bs = text := by
  obtain ⟨ns, hns, hbytes⟩ := bind_eq_some_iff.mp h
  obtain ⟨hlt, hsym⟩ := mapM_value hns
  rw [encode, sextets_ofSextets hlt hbytes, hsym, String.ofList_toList]

/-- Texts with the same bytes are equal. -/
theorem decode_inj {text text' : String} {bs : List UInt8} (h : decode text = some bs)
    (h' : decode text' = some bs) : text = text' :=
  (encode_of_decode h).symm.trans (encode_of_decode h')

/-! ### Every encoding is decoded -/

lemma value_symbol (h : n < 64) : value (symbol n) = some n := by
  have hall : ∀ n < 64, value (symbol n) = some n := by decide
  exact hall n h

lemma mapM_symbol (h : ∀ n ∈ ns, n < 64) : (ns.map symbol).mapM value = some ns := by
  induction ns with
  | nil => rfl
  | cons n ns ih =>
    rw [forall_mem_cons] at h
    rw [map_cons, mapM_cons, value_symbol h.1, ih h.2]
    rfl

lemma sextets_lt (bs : List UInt8) : ∀ n ∈ sextets bs, n < 64 := by
  induction bs using sextets.induct with
  | case1 => simp [sextets]
  | case2 a =>
    have ha := a.toNat_lt
    simp only [sextets, mem_cons, not_mem_nil, or_false, forall_eq_or_imp, forall_eq]
    omega
  | case3 a b =>
    have ha := a.toNat_lt
    have hb := b.toNat_lt
    simp only [sextets, mem_cons, not_mem_nil, or_false]
    omega
  | case4 a b c rest ih =>
    have ha := a.toNat_lt
    have hb := b.toNat_lt
    have hc := c.toNat_lt
    simp only [sextets, mem_cons, forall_eq_or_imp]
    exact ⟨by omega, by omega, by omega, by omega, ih⟩

private lemma ofNat_of_eq {a : UInt8} (h : n = a.toNat) : UInt8.ofNat n = a := by
  rw [h, UInt8.ofNat_toNat]

lemma ofSextets_sextets (bytes : List UInt8) : ofSextets (sextets bytes) = some bytes := by
  induction bytes using sextets.induct with
  | case1 => rfl
  | case2 a =>
    rw [sextets, ofSextets, if_pos (by omega), ofNat_of_eq (a := a) (by omega)]
  | case3 a b =>
    have hb := b.toNat_lt
    rw [sextets, ofSextets, if_pos (by omega), ofNat_of_eq (a := a) (by omega),
      ofNat_of_eq (a := b) (by omega)]
  | case4 a b c rest ih =>
    have hb := b.toNat_lt
    have hc := c.toNat_lt
    rw [sextets, ofSextets, ih, map_some, ofNat_of_eq (a := a) (by omega),
      ofNat_of_eq (a := b) (by omega), ofNat_of_eq (a := c) (by omega)]

/-- **Every encoding is decoded to its bytes.** -/
theorem decode_encode (bytes : List UInt8) : decode (encode bytes) = some bytes := by
  rw [decode, encode, String.toList_ofList, mapM_symbol (sextets_lt bytes)]
  exact ofSextets_sextets bytes

end Foretoken.Base64

import RobotFirmware.Library.Scanf
import Mathlib.Data.List.DropRight
import Mathlib.Data.List.TakeWhile

/-! Numerals as they are written, and what the integer conversions of `sscanf` make of them. -/
namespace Scanf
open Fp

/-- An optional sign and some decimal digits. -/
structure Numeral where
  sign : Option Bool
  digits : List Char
  nonempty : digits ≠ []
  areDigits : ∀ c ∈ digits, isDigit c = true

namespace Numeral

def signText : Option Bool → List Char
  | none => []
  | some true => ['-']
  | some false => ['+']

def text (w : Numeral) : List Char := signText w.sign ++ w.digits

def magnitude (w : Numeral) : ℕ := w.digits.foldl (fun n c => 10 * n + (c.toNat - '0'.toNat)) 0

def value (w : Numeral) : ℤ := if w.sign = some true then -w.magnitude else w.magnitude

/-- The nearest `int`. -/
def int32 (w : Numeral) : Int32 := .ofInt (max (-2 ^ 31) (min (2 ^ 31 - 1) w.value))

/-- The value modulo `2 ^ 32`, as long as it has fewer than 33 bits without its sign. -/
def uint32 (w : Numeral) : UInt32 :=
  if 2 ^ 32 ≤ w.magnitude then .ofNat (2 ^ 32 - 1)
  else if w.sign = some true then 0 - .ofNat w.magnitude else .ofNat w.magnitude

end Numeral

def StopsDigits (s : List Char) : Prop := ∀ c ∈ s.head?, isDigit c = false

def Spaces (s : List Char) : Prop := ∀ c ∈ s, isSpace c = true

theorem isDigit_iff (c : Char) : isDigit c = true ↔ 48 ≤ c.toNat ∧ c.toNat ≤ 57 := by
  unfold isDigit
  rw [Bool.and_eq_true, decide_eq_true_iff, decide_eq_true_iff]
  rfl

theorem digitValue?_ten (c : Char) :
    digitValue? 10 c = if isDigit c then some (c.toNat - '0'.toNat) else none := by
  have hdigit := isDigit_iff c
  have hzero : '0'.toNat = 48 := rfl
  unfold digitValue?
  cases hd : isDigit c with
  | true =>
    obtain ⟨hlo, hhi⟩ := hdigit.mp hd
    simp only [if_true]
    rw [if_pos (by omega)]
  | false =>
    simp only [Bool.false_eq_true, if_false]
    split_ifs <;> first | rfl | omega

theorem isSpace_not_digit {c : Char} (h : isSpace c = true) : isDigit c = false := by
  by_contra hd
  rw [Bool.not_eq_false, isDigit_iff] at hd
  unfold isSpace at h
  simp only [Bool.or_eq_true, decide_eq_true_iff] at h
  have htoNat : c.toNat = 32 ∨ c.toNat = 9 ∨ c.toNat = 10 ∨ c.toNat = 13 ∨ c.toNat = 11 ∨
      c.toNat = 12 := by
    rcases h with ((((h | h) | h) | h) | h) | h
    · exact .inl (by rw [h]; rfl)
    · exact .inr (.inl (by rw [h]; rfl))
    · exact .inr (.inr (.inl (by rw [h]; rfl)))
    · exact .inr (.inr (.inr (.inl (by rw [h]; rfl))))
    · exact .inr (.inr (.inr (.inr (.inl h))))
    · exact .inr (.inr (.inr (.inr (.inr h))))
  omega

theorem scanDigits_ten (s : List Char) (n len : ℕ) :
    scanDigits 10 s n len =
      ((s.takeWhile isDigit).foldl (fun n c => 10 * n + (c.toNat - '0'.toNat)) n,
        len + (s.takeWhile isDigit).length, s.dropWhile isDigit) := by
  induction s generalizing n len with
  | nil => rfl
  | cons c s ih =>
    rw [scanDigits, digitValue?_ten]
    cases hd : isDigit c with
    | true =>
      have htake : (c :: s).takeWhile isDigit = c :: s.takeWhile isDigit :=
        List.takeWhile_cons_of_pos hd
      have hdrop : (c :: s).dropWhile isDigit = s.dropWhile isDigit :=
        List.dropWhile_cons_of_pos hd
      rw [htake, hdrop]
      simp only [if_true]
      rw [ih, List.foldl_cons, List.length_cons]
      congr 2
      omega
    | false =>
      have htake : (c :: s).takeWhile isDigit = [] := List.takeWhile_cons_of_neg (by simp [hd])
      have hdrop : (c :: s).dropWhile isDigit = c :: s :=
        List.dropWhile_cons_of_neg (by simp [hd])
      rw [htake, hdrop]
      rfl

/-- Splitting off the longest prefix of one kind. -/
theorem dropWhile_eq_iff {p : Char → Bool} {s rest : List Char} :
    s.dropWhile p = rest ↔
      ∃ front, s = front ++ rest ∧ (∀ c ∈ front, p c = true) ∧ ∀ c ∈ rest.head?, p c = false := by
  constructor
  · rintro rfl
    refine ⟨s.takeWhile p, (List.takeWhile_append_dropWhile).symm, ?_, ?_⟩
    · exact fun c hc => List.mem_takeWhile_imp hc
    · intro c hc
      have := List.head?_dropWhile_not p s
      rw [Option.mem_def.mp hc] at this
      simpa using this
  · rintro ⟨front, rfl, hfront, hrest⟩
    rw [List.dropWhile_append_of_pos hfront]
    cases rest with
    | nil => rfl
    | cons c rest => exact List.dropWhile_cons_of_neg (by simp [hrest c rfl])

theorem takeWhile_eq {p : Char → Bool} {front rest : List Char}
    (hfront : ∀ c ∈ front, p c = true) (hrest : ∀ c ∈ rest.head?, p c = false) :
    (front ++ rest).takeWhile p = front := by
  rw [List.takeWhile_append_of_pos hfront]
  cases rest with
  | nil => simp
  | cons c rest => rw [List.takeWhile_cons_of_neg (by simp [hrest c rfl]), List.append_nil]

theorem scanSign_text (sign : Option Bool) {s : List Char} (hs : ∀ c ∈ s.head?, isDigit c = true) :
    scanSign (Numeral.signText sign ++ s) = (decide (sign = some true), s) := by
  cases sign with
  | none =>
    show scanSign s = (false, s)
    cases s with
    | nil => rfl
    | cons c s =>
      have hc : isDigit c = true := hs c rfl
      unfold scanSign
      split
      · rename_i heq
        cases heq
        cases hc
      · rename_i heq
        cases heq
        cases hc
      · rfl
  | some negative =>
    cases negative with
    | true => rfl
    | false => rfl

theorem exists_sign (s : List Char) : ∃ sign, s = Numeral.signText sign ++ (scanSign s).2 ∧
    (scanSign s).1 = decide (sign = some true) := by
  unfold scanSign
  split
  · exact ⟨some true, rfl, rfl⟩
  · exact ⟨some false, rfl, rfl⟩
  · exact ⟨none, rfl, rfl⟩

theorem scanDecimal_iff {s rest : List Char} {negative : Bool} {n : ℕ} :
    scanDecimal s = some (negative, n, rest) ↔
      ∃ w : Numeral, s = w.text ++ rest ∧ StopsDigits rest ∧
        negative = decide (w.sign = some true) ∧ n = w.magnitude := by
  unfold scanDecimal
  constructor
  · obtain ⟨sign, hs, hnegative⟩ := exists_sign s
    intro h
    dsimp only at h
    rw [scanDigits_ten] at h
    dsimp only at h
    split_ifs at h with hlen
    obtain ⟨rfl, rfl, rfl⟩ : negative = (scanSign s).1 ∧
        n = (((scanSign s).2.takeWhile isDigit).foldl
          (fun n c => 10 * n + (c.toNat - '0'.toNat)) 0) ∧
        rest = (scanSign s).2.dropWhile isDigit := by
      simpa [eq_comm] using h
    have hne : (scanSign s).2.takeWhile isDigit ≠ [] := by
      intro hnil
      rw [hnil] at hlen
      exact hlen rfl
    obtain ⟨_, _, _, hstop⟩ := dropWhile_eq_iff.mp (Eq.refl ((scanSign s).2.dropWhile isDigit))
    refine ⟨⟨sign, _, hne, fun c hc => List.mem_takeWhile_imp hc⟩, ?_, hstop, hnegative, rfl⟩
    unfold Numeral.text
    rw [List.append_assoc, List.takeWhile_append_dropWhile]
    exact hs
  · rintro ⟨w, rfl, hstop, rfl, rfl⟩
    have hhead : ∀ c ∈ (w.digits ++ rest).head?, isDigit c = true := by
      obtain ⟨d, digits, hdigits⟩ := List.exists_cons_of_ne_nil w.nonempty
      intro c hc
      rw [hdigits] at hc
      cases hc
      exact w.areDigits d (by rw [hdigits]; exact List.mem_cons_self)
    have htake := takeWhile_eq w.areDigits hstop
    have hdrop := dropWhile_eq_iff.mpr ⟨w.digits, rfl, w.areDigits, hstop⟩
    have hlen : ¬ 0 + w.digits.length = 0 := by
      have := List.length_pos_of_ne_nil w.nonempty
      omega
    unfold Numeral.text
    rw [List.append_assoc, scanSign_text w.sign hhead]
    dsimp only
    rw [scanDigits_ten, htake, hdrop]
    exact if_neg hlen

/-- A conversion of the sign and the digits of a decimal numeral. -/
theorem decimal_iff {α : Type} (convert : Bool → ℕ → α) (value : Numeral → α)
    (hvalue : ∀ w, value w = convert (decide (w.sign = some true)) w.magnitude)
    {s rest : List Char} {a : α} :
    ((scanDecimal s).map fun d => (convert d.1 d.2.1, d.2.2)) = some (a, rest) ↔
      ∃ w : Numeral, s = w.text ++ rest ∧ StopsDigits rest ∧ a = value w := by
  rw [Option.map_eq_some_iff]
  constructor
  · rintro ⟨⟨negative, n, rest'⟩, hdecimal, hconverted⟩
    obtain ⟨w, hs, hstop, rfl, rfl⟩ := scanDecimal_iff.mp hdecimal
    cases hconverted
    exact ⟨w, hs, hstop, (hvalue w).symm⟩
  · rintro ⟨w, hs, hstop, rfl⟩
    exact ⟨_, scanDecimal_iff.mpr ⟨w, hs, hstop, rfl, rfl⟩, by rw [hvalue]⟩

theorem scanInt_iff {s rest : List Char} {n : Int32} :
    scanInt s = some (n, rest) ↔
      ∃ w : Numeral, s = w.text ++ rest ∧ StopsDigits rest ∧ n = w.int32 := by
  have hvalue : ∀ w : Numeral, w.int32 = .ofInt (max (-2 ^ 31) (min (2 ^ 31 - 1)
      (if decide (w.sign = some true) then -(w.magnitude : ℤ) else w.magnitude))) := by
    intro w
    unfold Numeral.int32 Numeral.value
    simp
  exact decimal_iff (fun negative m =>
    .ofInt (max (-2 ^ 31) (min (2 ^ 31 - 1) (if negative then -(m : ℤ) else m))))
    Numeral.int32 hvalue

theorem scanUInt_iff {s rest : List Char} {n : UInt32} :
    scanUInt s = some (n, rest) ↔
      ∃ w : Numeral, s = w.text ++ rest ∧ StopsDigits rest ∧ n = w.uint32 := by
  have hvalue : ∀ w : Numeral, w.uint32 = if 2 ^ 32 ≤ w.magnitude then .ofNat (2 ^ 32 - 1)
      else if decide (w.sign = some true) then 0 - .ofNat w.magnitude
      else .ofNat w.magnitude := by
    intro w
    unfold Numeral.uint32
    simp
  exact decimal_iff (fun negative m =>
    if 2 ^ 32 ≤ m then .ofNat (2 ^ 32 - 1) else if negative then 0 - .ofNat m else .ofNat m)
    Numeral.uint32 hvalue

theorem Spaces.stopsDigits {s : List Char} (hs : Spaces s) : StopsDigits s := by
  intro c hc
  exact isSpace_not_digit (hs c (List.mem_of_mem_head? hc))

/-- Between two numerals there have to be spaces or a sign. -/
theorem stopsDigits_numeral {spaces rest : List Char} (hspaces : Spaces spaces) (w : Numeral) :
    StopsDigits (spaces ++ (w.text ++ rest)) ↔ spaces ≠ [] ∨ w.sign ≠ none := by
  obtain ⟨d, digits, hdigits⟩ := List.exists_cons_of_ne_nil w.nonempty
  have hd : isDigit d = true := w.areDigits d (by rw [hdigits]; exact List.mem_cons_self)
  unfold StopsDigits Numeral.text
  rw [hdigits]
  cases spaces with
  | nil =>
    cases hsign : w.sign with
    | none => simp [Numeral.signText, hd]
    | some negative => cases negative <;> simp [Numeral.signText, isDigit]
  | cons c spaces =>
    have hc := isSpace_not_digit (hspaces c List.mem_cons_self)
    simp [hc]

variable {F : Format} {ds : List Directive} {s : List Char} {vs : List Value}

/-- A numeral does not begin with a space. -/
theorem Numeral.dropWhile_space (w : Numeral) {spaces rest : List Char} (hspaces : Spaces spaces) :
    (spaces ++ (w.text ++ rest)).dropWhile isSpace = w.text ++ rest := by
  refine dropWhile_eq_iff.mpr ⟨spaces, rfl, hspaces, fun c hc => ?_⟩
  obtain ⟨d, digits, hdigits⟩ := List.exists_cons_of_ne_nil w.nonempty
  have hd : isDigit d = true := w.areDigits d (by rw [hdigits]; exact List.mem_cons_self)
  unfold Numeral.text at hc
  rw [hdigits] at hc
  cases hsign : w.sign with
  | none =>
    rw [hsign] at hc
    cases hc
    by_contra hspace
    rw [isSpace_not_digit (by simpa using hspace)] at hd
    cases hd
  | some negative =>
    rw [hsign] at hc
    cases negative <;> cases hc <;> rfl

theorem converted_iff {α : Type} {scan : List Char → Option (α × List Char)} {value : Numeral → α}
    (hscan : ∀ {s rest a}, scan s = some (a, rest) ↔
      ∃ w : Numeral, s = w.text ++ rest ∧ StopsDigits rest ∧ a = value w)
    {assign : α → Value} (hassign : Function.Injective assign) {result : List Value}
    (hsome : ∀ a rest, scan (s.dropWhile isSpace) = some (a, rest) →
      result = assign a :: sscanf F ds rest)
    (hnone : scan (s.dropWhile isSpace) = none → result = []) {a : α} :
    result = assign a :: vs ↔
    ∃ spaces w rest, s = spaces ++ (Numeral.text w ++ rest) ∧ Spaces spaces ∧ StopsDigits rest ∧
      a = value w ∧ sscanf F ds rest = vs := by
  constructor
  · intro h
    cases hs : scan (s.dropWhile isSpace) with
    | none =>
      rw [hnone hs] at h
      cases h
    | some r =>
      obtain ⟨b, rest⟩ := r
      rw [hsome b rest hs, List.cons.injEq] at h
      obtain ⟨w, htext, hstop, rfl⟩ := hscan.mp hs
      obtain ⟨spaces, hfront, hspaces, _⟩ := dropWhile_eq_iff.mp htext
      exact ⟨spaces, w, rest, hfront, hspaces, hstop, (hassign h.1).symm, h.2⟩
  · rintro ⟨spaces, w, rest, rfl, hspaces, hstop, rfl, hrest⟩
    rw [← hrest]
    apply hsome
    rw [w.dropWhile_space hspaces]
    exact hscan.mpr ⟨w, rfl, hstop, rfl⟩

theorem sscanf_int {n : Int32} : sscanf F (.space :: .int :: ds) s = .int n :: vs ↔
    ∃ spaces w rest, s = spaces ++ (Numeral.text w ++ rest) ∧ Spaces spaces ∧ StopsDigits rest ∧
      n = w.int32 ∧ sscanf F ds rest = vs := by
  rw [sscanf, sscanf, List.dropWhile_idempotent]
  apply converted_iff scanInt_iff fun _ _ h => Value.int.inj h
  · intro a rest h
    rw [h]
  · intro h
    rw [h]

theorem sscanf_uint {n : UInt32} : sscanf F (.space :: .uint :: ds) s = .uint n :: vs ↔
    ∃ spaces w rest, s = spaces ++ (Numeral.text w ++ rest) ∧ Spaces spaces ∧ StopsDigits rest ∧
      n = w.uint32 ∧ sscanf F ds rest = vs := by
  rw [sscanf, sscanf, List.dropWhile_idempotent]
  apply converted_iff scanUInt_iff fun _ _ h => Value.uint.inj h
  · intro a rest h
    rw [h]
  · intro h
    rw [h]

/-- Nothing but spaces is left for a last character. -/
theorem sscanf_end : sscanf F [.space, .char] s = [] ↔ Spaces s := by
  rw [sscanf, sscanf.eq_def]
  dsimp only
  constructor
  · intro h
    cases hrest : s.dropWhile isSpace with
    | nil => exact fun c hc => List.dropWhile_eq_nil_iff.mp hrest c hc
    | cons c rest =>
      rw [hrest] at h
      cases h
  · intro h
    rw [List.dropWhile_eq_nil_iff.mpr h]

theorem sscanf_literals {text : List Char} (hvs : vs ≠ []) :
    sscanf F (literals text ++ ds) s = vs ↔ ∃ rest, s = text ++ rest ∧ sscanf F ds rest = vs := by
  induction text generalizing s with
  | nil =>
    constructor
    · exact fun h => ⟨s, rfl, h⟩
    · rintro ⟨rest, rfl, h⟩
      exact h
  | cons c text ih =>
    have hcons : literals (c :: text) ++ ds = .literal c :: (literals text ++ ds) := rfl
    rw [hcons]
    cases s with
    | nil =>
      rw [sscanf]
      constructor
      · exact fun h => absurd h.symm hvs
      · rintro ⟨rest, h, _⟩
        cases h
    | cons c' s =>
      rw [sscanf]
      by_cases hc : c = c'
      · subst hc
        rw [if_pos rfl, ih]
        simp
      · rw [if_neg hc]
        constructor
        · exact fun h => absurd h.symm hvs
        · rintro ⟨rest, h, _⟩
          cases h
          exact absurd rfl hc

end Scanf

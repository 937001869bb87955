import Mathlib

-- Texts as the C library sees them: the characters before the zero at the end.
namespace CText

-- The zero at the end of a text.
def nul : Char :=
  Char.ofNat 0

-- How far the first occurrence is from the beginning.
def strstr (needle : List Char) : List Char → Option Nat
  | []      => if needle = [] then some 0 else none
  | c :: cs => if needle.isPrefixOf (c :: cs) then some 0 else (strstr needle cs).map (· + 1)

theorem strstr_eq_zero_iff {needle text : List Char} : strstr needle text = some 0 ↔ needle <+: text := by
  cases text
  case nil => simp [strstr]
  case cons c cs =>
    rw [strstr, ← List.isPrefixOf_iff_prefix]
    split
    case isTrue h  => exact iff_of_true rfl h
    case isFalse h => exact iff_of_false (by simp) h

-- Where a character is found, and that it is not found before.
theorem strstr_singleton_eq_some_iff {c : Char} {text : List Char} {n : Nat} :
    strstr [c] text = some n ↔
      ∃ before after, text = before ++ c :: after ∧ c ∉ before ∧ before.length = n := by
  induction text generalizing n
  case nil => simp [strstr]
  case cons d ds ih =>
    rw [strstr]
    by_cases hd : c = d
    case pos =>
      subst hd
      simp only [List.isPrefixOf_cons_cons_self, List.isPrefixOf_nil_left, if_true]
      refine ⟨fun h => ⟨[], ds, rfl, List.not_mem_nil, Option.some.inj h⟩, ?_⟩
      rintro ⟨before, after, htext, hmem, rfl⟩
      cases before
      case nil => rfl
      case cons b bs =>
        obtain ⟨rfl, _⟩ := List.cons.inj htext
        exact absurd List.mem_cons_self hmem
    case neg =>
      have hnot : [c].isPrefixOf (d :: ds) = false := by simp [List.isPrefixOf, hd]
      rw [hnot, if_neg Bool.false_ne_true, Option.map_eq_some_iff]
      constructor
      · rintro ⟨k, hk, rfl⟩
        obtain ⟨before, after, rfl, hmem, rfl⟩ := ih.mp hk
        exact ⟨d :: before, after, rfl, by simp [hd, hmem], rfl⟩
      · rintro ⟨before, after, htext, hmem, rfl⟩
        cases before
        case nil => exact absurd (List.cons.inj htext).1.symm hd
        case cons b bs =>
          obtain ⟨rfl, rfl⟩ := List.cons.inj htext
          exact ⟨bs.length, ih.mpr ⟨bs, after, rfl, fun h => hmem <| List.mem_cons_of_mem _ h, rfl⟩, rfl⟩

theorem strstr_singleton_eq_none_iff {c : Char} {text : List Char} : strstr [c] text = none ↔ c ∉ text := by
  induction text
  case nil => simp [strstr]
  case cons d ds ih =>
    rw [strstr, List.mem_cons, not_or, ← ih]
    by_cases hd : c = d
    case pos => simp [hd]
    case neg => simp [List.isPrefixOf, hd]

-- An array of characters, and what goes wrong at its end.
section Arrays

variable {ε : Type} (overrun : ε)

-- A text that is shorter than `n` is filled up with zeros.
def strncpy (array src : List Char) (n : Nat) : Except ε (List Char) :=
  if n ≤ array.length then
    .ok (src.take n ++ .replicate (n - src.length) nul ++ array.drop n)
  else
    .error overrun

def setChar (array : List Char) (i : Nat) (c : Char) : Except ε (List Char) :=
  if i < array.length then .ok (array.set i c) else .error overrun

-- The text that begins at the first character.
def textOf (array : List Char) : Except ε (List Char) :=
  if nul ∈ array then .ok (array.takeWhile (· ≠ nul)) else .error overrun

theorem textOf_append {text rest : List Char} (h : nul ∉ text) :
    textOf overrun (text ++ nul :: rest) = .ok text := by
  have hbefore : ∀ c ∈ text, decide (c ≠ nul) = true := fun c hc => decide_eq_true fun he => h <| he ▸ hc
  have htake : (text ++ nul :: rest).takeWhile (· ≠ nul) = text := by
    rw [List.takeWhile_append_of_pos hbefore]
    simp
  rw [textOf, if_pos (by simp), htake]

end Arrays

section Numbers

def isSpace (c : Char) : Bool :=
  c = ' ' || '\t' ≤ c && c ≤ '\r'

-- The number, as large as it may get.
def number (text : List Char) : Int :=
  match text.dropWhile isSpace with
  | '-' :: digits => -(Nat.ofDigitChars 10 (digits.takeWhile Char.isDigit) 0 : Int)
  | '+' :: digits => Nat.ofDigitChars 10 (digits.takeWhile Char.isDigit) 0
  | digits        => Nat.ofDigitChars 10 (digits.takeWhile Char.isDigit) 0

-- The behaviour is undefined if the number does not fit into an `int`.
def atoi {ε : Type} (undefined : ε) (text : List Char) : Except ε Int :=
  if -2 ^ 31 ≤ number text ∧ number text < 2 ^ 31 then .ok (number text) else .error undefined

theorem not_isSpace {c : Char} (h : c.isDigit = true) : isSpace c = false := by
  have hd : 48 ≤ c.val := (Bool.and_eq_true ..).mp h |>.1 |> of_decide_eq_true
  have hlt : 32 < c.val.toNat := lt_of_lt_of_le (by decide) (UInt32.le_iff_toNat_le.mp hd)
  have hne : c ≠ ' ' := fun he => absurd hlt <| by simp [he]
  have hgt : ¬c ≤ '\r' := fun hle => by
    have hle : c.val.toNat ≤ 13 := UInt32.le_iff_toNat_le.mp hle
    omega
  simp [isSpace, hne, hgt]

theorem number_toDigits (n : Nat) : number (Nat.toDigits 10 n) = n := by
  have hdigits : ∀ c ∈ Nat.toDigits 10 n, c.isDigit = true :=
    fun c hc => Nat.isDigit_of_mem_toDigits (by decide) (by decide) hc
  have hall : (Nat.toDigits 10 n).takeWhile Char.isDigit = Nat.toDigits 10 n :=
    List.takeWhile_eq_self_iff.mpr hdigits
  have hnumber : Nat.ofDigitChars 10 (Nat.toDigits 10 n) 0 = n := Nat.ofDigitChars_ten_toDigits
  have hspace : (Nat.toDigits 10 n).dropWhile isSpace = Nat.toDigits 10 n := by
    cases hd : Nat.toDigits 10 n
    case nil => rfl
    case cons c cs =>
      exact List.dropWhile_cons_of_neg <| by simp [not_isSpace <| hdigits c <| hd ▸ List.mem_cons_self]
  rw [number, hspace]
  split
  case h_1 digits hd => exact absurd (hdigits '-' <| hd ▸ List.mem_cons_self) (by decide)
  case h_2 digits hd => exact absurd (hdigits '+' <| hd ▸ List.mem_cons_self) (by decide)
  case h_3 => rw [hall, hnumber]

end Numbers
end CText

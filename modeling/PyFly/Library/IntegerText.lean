import Mathlib.Data.Nat.Digits.Lemmas
import Mathlib.Tactic.Common

/-!
# Integers as text

A parser of decimal integers that allows blanks around, a sign, underscores
between digits and leading zeros, and the rendering without any of these.
-/

namespace PyFly.Library

open List

/-- Which characters are blank and which are digits; at most so many digits are
read. -/
structure IntegerSyntax where
  isSpace : Char → Bool
  digit : Char → Option ℕ
  maxDigits : ℕ
  digit_digitChar : ∀ d < 10, digit (Nat.digitChar d) = some d
  isSpace_digitChar : ∀ d < 10, isSpace (Nat.digitChar d) = false
  isSpace_minus : isSpace '-' = false

def decimalDigits (n : ℕ) : List ℕ :=
  if n = 0 then [0] else (Nat.digits 10 n).reverse

def renderNat (n : ℕ) : List Char :=
  (decimalDigits n).map Nat.digitChar

def renderInt : ℤ → List Char
  | .ofNat n => renderNat n
  | .negSucc n => '-' :: renderNat (n + 1)

namespace IntegerSyntax

variable (ints : IntegerSyntax)

def digits : List Char → Option (List ℕ)
  | [] => none
  | char :: rest =>
    match ints.digit char with
    | none => none
    | some d =>
      match rest with
      | [] => some [d]
      | '_' :: rest => (digits rest).map (d :: ·)
      | rest => (digits rest).map (d :: ·)

def parseNat (text : List Char) : Option ℕ :=
  match ints.digits text with
  | none => none
  | some digits =>
    if digits.length ≤ ints.maxDigits then
      some (digits.foldl (fun value d => value * 10 + d) 0)
    else none

def strip (text : List Char) : List Char :=
  ((text.dropWhile ints.isSpace).reverse.dropWhile ints.isSpace).reverse

def parseInt (text : List Char) : Option ℤ :=
  match ints.strip text with
  | '-' :: text => (ints.parseNat text).map fun n => -Int.ofNat n
  | '+' :: text => (ints.parseNat text).map Int.ofNat
  | text => (ints.parseNat text).map Int.ofNat

end IntegerSyntax

/-! ## Rendering -/

theorem decimalDigits_ne_nil (n : ℕ) : decimalDigits n ≠ [] := by
  unfold decimalDigits
  split
  · simp
  · next hn => simpa [Nat.digits_eq_nil_iff_eq_zero] using hn

theorem lt_ten_of_mem_decimalDigits {n d : ℕ} (h : d ∈ decimalDigits n) : d < 10 := by
  unfold decimalDigits at h
  split at h
  · rw [mem_singleton.mp h]
    decide
  · exact Nat.digits_lt_base (by decide) (mem_reverse.mp h)

theorem foldl_decimalDigits (n : ℕ) :
    (decimalDigits n).foldl (fun value d => value * 10 + d) 0 = n := by
  unfold decimalDigits
  split
  · next hn => simp [hn]
  · calc
      (Nat.digits 10 n).reverse.foldl (fun value d => value * 10 + d) 0 =
          (Nat.digits 10 n).foldr (fun d value => value * 10 + d) 0 :=
        foldl_reverse
      _ = Nat.ofDigits 10 (Nat.digits 10 n) := by
        rw [Nat.ofDigits_eq_foldr]
        simp [Nat.add_comm, Nat.mul_comm]
      _ = n := Nat.ofDigits_digits 10 n

theorem length_renderNat (n : ℕ) : (renderNat n).length = (decimalDigits n).length := by
  simp [renderNat]

theorem length_renderNat_pow (k : ℕ) : (renderNat (10 ^ k)).length = k + 1 := by
  have hne : 10 ^ k ≠ 0 := Nat.pow_pos (by decide) |>.ne'
  rw [length_renderNat, decimalDigits, if_neg hne, length_reverse,
    Nat.length_digits 10 _ (by decide) hne, Nat.log_pow (by decide)]

namespace IntegerSyntax

variable {ints : IntegerSyntax}

theorem digitChar_ne {d : ℕ} (h : d < 10) :
    Nat.digitChar d ≠ '_' ∧ Nat.digitChar d ≠ '-' ∧ Nat.digitChar d ≠ '+' := by
  interval_cases d <;> decide

theorem digits_map_digitChar {ds : List ℕ} (hne : ds ≠ []) (h : ∀ d ∈ ds, d < 10) :
    ints.digits (ds.map Nat.digitChar) = some ds := by
  induction ds with
  | nil => exact absurd rfl hne
  | cons d ds ih =>
    have hd := ints.digit_digitChar d (h d mem_cons_self)
    cases ds with
    | nil => simp [digits, hd]
    | cons e ds =>
      have hrest := ih (by simp)
        fun other hother => h other (mem_cons_of_mem _ hother)
      have he : Nat.digitChar e ≠ '_' :=
        (digitChar_ne (h e (by simp))).1
      rw [map_cons, digits, hd]
      simp only [map_cons] at hrest ⊢
      split
      · next heq => cases heq
      · next heq => exact absurd (List.cons.inj heq).1 he
      · rw [hrest]
        rfl

theorem parseNat_renderNat (n : ℕ) : ints.parseNat (renderNat n) =
      if (renderNat n).length ≤ ints.maxDigits then some n else none := by
  have hdigits : ints.digits (renderNat n) = some (decimalDigits n) :=
    digits_map_digitChar (decimalDigits_ne_nil n) fun _ => lt_ten_of_mem_decimalDigits
  rw [parseNat, hdigits, length_renderNat]
  simp only [foldl_decimalDigits]

theorem isSpace_of_mem_renderNat {n : ℕ} {char : Char}
    (h : char ∈ renderNat n) : ints.isSpace char = false := by
  obtain ⟨d, hd, rfl⟩ := mem_map.mp h
  exact ints.isSpace_digitChar d (lt_ten_of_mem_decimalDigits hd)

theorem strip_of_forall {text : List Char} (h : ∀ char ∈ text, ints.isSpace char = false) :
    ints.strip text = text := by
  have hfront : ∀ {text : List Char}, (∀ char ∈ text, ints.isSpace char = false) →
        text.dropWhile ints.isSpace = text := by
    intro text htext
    cases text with
    | nil => rfl
    | cons char rest => simp [htext char mem_cons_self]
  rw [strip, hfront h, hfront fun char hchar => h char (by simpa using hchar),
    reverse_reverse]

theorem exists_renderNat_eq_cons (n : ℕ) :
    ∃ d rest, d < 10 ∧ renderNat n = Nat.digitChar d :: rest := by
  cases hdigits : decimalDigits n with
  | nil => exact absurd hdigits (decimalDigits_ne_nil n)
  | cons d ds =>
    refine ⟨d, ds.map Nat.digitChar, ?_, by rw [renderNat, hdigits]; rfl⟩
    apply lt_ten_of_mem_decimalDigits (n := n)
    rw [hdigits]
    exact mem_cons_self

theorem strip_renderInt (n : ℤ) : ints.strip (renderInt n) = renderInt n := by
  apply strip_of_forall
  intro char hchar
  cases n with
  | ofNat n => exact isSpace_of_mem_renderNat hchar
  | negSucc n =>
    rcases mem_cons.mp hchar with rfl | hchar
    · exact ints.isSpace_minus
    · exact isSpace_of_mem_renderNat hchar

theorem parseInt_renderInt (n : ℤ) : ints.parseInt (renderInt n) =
      if (renderNat n.natAbs).length ≤ ints.maxDigits then some n
      else none := by
  rw [parseInt, strip_renderInt]
  cases n with
  | ofNat n =>
    obtain ⟨d, rest, hd, hrender⟩ := exists_renderNat_eq_cons n
    obtain ⟨-, hminus, hplus⟩ := digitChar_ne hd
    rw [renderInt]
    split
    · next heq =>
      rw [hrender] at heq
      exact absurd (List.cons.inj heq).1 hminus
    · next heq =>
      rw [hrender] at heq
      exact absurd (List.cons.inj heq).1 hplus
    · rw [parseNat_renderNat]
      exact apply_ite (Option.map Int.ofNat) _ _ _
  | negSucc n =>
    rw [renderInt]
    simp only [parseNat_renderNat]
    exact apply_ite (Option.map fun n => -Int.ofNat n) _ _ _

end IntegerSyntax

theorem renderNat_injective : Function.Injective renderNat := by
  have hdigits : ∀ n : ℕ, (renderNat n).map (fun char => char.toNat - '0'.toNat) =
        decimalDigits n := by
    intro n
    rw [renderNat, map_map]
    conv_rhs => rw [← map_id (decimalDigits n)]
    apply map_congr_left
    intro d hd
    have hlt := lt_ten_of_mem_decimalDigits hd
    interval_cases d <;> rfl
  intro n m h
  have hsame : decimalDigits n = decimalDigits m := by
    rw [← hdigits n, ← hdigits m, h]
  rw [← foldl_decimalDigits n, ← foldl_decimalDigits m, hsame]

theorem renderInt_injective : Function.Injective renderInt := by
  have hsign : ∀ n m : ℕ, renderNat n ≠ '-' :: renderNat m := by
    intro n m h
    obtain ⟨d, rest, hd, hrender⟩ := IntegerSyntax.exists_renderNat_eq_cons n
    rw [hrender] at h
    exact (IntegerSyntax.digitChar_ne hd).2.1 (List.cons.inj h).1
  intro n m h
  cases n with
  | ofNat n =>
    cases m with
    | ofNat m => rw [renderNat_injective h]
    | negSucc m => exact absurd h (hsign n (m + 1))
  | negSucc n =>
    cases m with
    | ofNat m => exact absurd h.symm (hsign m (n + 1))
    | negSucc m =>
      have hsucc := renderNat_injective (List.cons.inj h).2
      rw [Nat.succ.inj hsucc]

end PyFly.Library

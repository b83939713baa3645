/-!
# Newline expansion

A terminal wants a carriage return before each line feed. `expand` inserts it, byte by byte and
without looking at the neighbours, so a text that already holds the pair gets a second carriage
return. `contract` takes out one carriage return before each line feed.

Main statements: expansion distributes over concatenation (`expand_append`), so it does not matter
how an output is cut into pieces, and it loses nothing (`contract_expand`).
-/

namespace BringUp.Newline

/-- Carriage return. -/
def cr : UInt8 := 0x0D

/-- Line feed. -/
def lf : UInt8 := 0x0A

/-- What one byte becomes: a line feed gets a carriage return in front. -/
def expandByte (b : UInt8) : List UInt8 :=
  if b = lf then [cr, lf] else [b]

/-- Each line feed of the list gets a carriage return in front. -/
def expand (bytes : List UInt8) : List UInt8 :=
  bytes.flatMap expandByte

/-- Takes out one carriage return before each line feed. -/
def contract : List UInt8 → List UInt8
  | [] => []
  | [b] => [b]
  | b :: c :: rest =>
    if b = cr ∧ c = lf then lf :: contract rest else b :: contract (c :: rest)

@[simp] theorem expand_nil : expand [] = [] := rfl

theorem expand_cons (b : UInt8) (bytes : List UInt8) :
    expand (b :: bytes) = expandByte b ++ expand bytes := rfl

theorem expand_append (xs ys : List UInt8) : expand (xs ++ ys) = expand xs ++ expand ys :=
  List.flatMap_append

/-- An expanded list does not begin with a line feed. -/
theorem expand_ne_lf_cons (xs ys : List UInt8) : expand xs ≠ lf :: ys := by
  cases xs with
  | nil => simp
  | cons b xs =>
    by_cases hb : b = lf
    · simp [expand_cons, expandByte, hb, cr, lf]
    · simp [expand_cons, expandByte, hb]

theorem contract_cons_of_ne {b : UInt8} {xs : List UInt8} (h : ∀ ys, xs ≠ lf :: ys) :
    contract (b :: xs) = b :: contract xs := by
  cases xs with
  | nil => rfl
  | cons c rest =>
    have hc : c ≠ lf := fun e ↦ h rest (by rw [e])
    simp [contract, hc]

/-- Expansion loses nothing: contracting gives the list back. -/
theorem contract_expand (xs : List UInt8) : contract (expand xs) = xs := by
  induction xs with
  | nil => rfl
  | cons b xs ih =>
    by_cases hb : b = lf
    · simp [expand_cons, expandByte, hb, contract, ih]
    · rw [expand_cons, expandByte, if_neg hb, List.singleton_append,
        contract_cons_of_ne fun ys ↦ expand_ne_lf_cons xs ys, ih]

end BringUp.Newline

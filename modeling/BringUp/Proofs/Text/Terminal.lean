import BringUp.Text.Newline

/-!
# Texts for a terminal

What a terminal is to get for a text: the bytes of its characters, with a carriage return in front
of each line feed. `forTerminal` tells it byte by byte and by the codes alone, and the newline
expansion gives just that (`expand_eq_forTerminal`).

So a line feed that comes out is one that went in, with the carriage return in front that was
inserted for it (`expand_eq_append_lf`).
-/

namespace BringUp

/-! ### Line feeds -/

namespace Newline

/-- What a terminal is to get for some bytes: a carriage return, 13, in front of each line feed, 10,
and every other byte as it is. -/
def forTerminal : List UInt8 → List UInt8
  | [] => []
  | b :: bytes => if b = 10 then 13 :: 10 :: forTerminal bytes else b :: forTerminal bytes

/-- **Expanding newlines is what a terminal wants.** -/
theorem expand_eq_forTerminal (bytes : List UInt8) : expand bytes = forTerminal bytes := by
  induction bytes with
  | nil => rfl
  | cons b bytes ih =>
    rw [expand_cons, ih, forTerminal, expandByte, lf, cr]
    by_cases hb : b = 10
    · rw [if_pos hb, if_pos hb]
      rfl
    · rw [if_neg hb, if_neg hb]
      rfl

variable {front back : List UInt8}

/-- A line feed in what a byte becomes is that byte, with the inserted carriage return in front. -/
theorem expandByte_eq_append_lf {b : UInt8} (h : expandByte b = front ++ lf :: back) :
    b = lf ∧ front = [cr] ∧ back = [] := by
  by_cases hb : b = lf
  · rw [expandByte, if_pos hb] at h
    rcases front with - | ⟨c, - | ⟨d, rest⟩⟩
    · exact absurd (List.cons.inj h).1 (by decide)
    · obtain ⟨rfl, hrest⟩ := List.cons.inj h
      exact ⟨hb, rfl, (List.cons.inj hrest).2.symm⟩
    · exact absurd (congrArg List.length h) (by simp)
  · rw [expandByte, if_neg hb] at h
    rcases front with - | ⟨c, rest⟩
    · exact absurd (List.cons.inj h).1 hb
    · exact absurd (congrArg List.length h) (by simp)

/-- **A line feed that comes out is one that went in, with the inserted carriage return in front.**
What comes out before these two is what was expanded before it. -/
theorem expand_eq_append_lf {bytes : List UInt8} (h : expand bytes = front ++ lf :: back) :
    ∃ before after, bytes = before ++ lf :: after ∧ front = expand before ++ [cr] ∧
      back = expand after := by
  induction bytes generalizing front with
  | nil => exact absurd h.symm (List.append_ne_nil_of_right_ne_nil _ (List.cons_ne_nil _ _))
  | cons b bytes ih =>
    rw [expand_cons] at h
    rcases List.append_eq_append_iff.1 h with ⟨rest, rfl, hrest⟩ | ⟨c, hbyte, hback⟩
    · obtain ⟨before, after, rfl, rfl, rfl⟩ := ih hrest
      exact ⟨b :: before, after, rfl, by rw [expand_cons, List.append_assoc], rfl⟩
    · rcases c with - | ⟨d, c⟩
      · -- then what follows would begin with a line feed that has nothing in front
        exact absurd hback.symm (expand_ne_lf_cons _ _)
      · obtain ⟨rfl, rfl⟩ := List.cons.inj hback
        obtain ⟨rfl, rfl, rfl⟩ := expandByte_eq_append_lf hbyte
        exact ⟨[], bytes, rfl, rfl, rfl⟩

end Newline

/-! ### Texts as bytes -/

theorem toList_loop (bytes : ByteArray) (i : Nat) (acc : List UInt8) :
    ByteArray.toList.loop bytes i acc = acc.reverse ++ bytes.data.toList.drop i := by
  induction i, acc using ByteArray.toList.loop.induct bytes with
  | case1 i acc hlt ih =>
    have hlength : i < bytes.data.toList.length := by simpa using hlt
    have hget : bytes.get! i = bytes.data.toList[i] := by
      rw [ByteArray.get!, getElem!_pos bytes.data i hlt, Array.getElem_toList]
    rw [ByteArray.toList.loop, if_pos hlt, ih, List.drop_eq_getElem_cons hlength, hget,
      List.reverse_cons, List.append_assoc, List.singleton_append]
  | case2 i acc hge =>
    have hlength : bytes.data.toList.length ≤ i := by simpa using hge
    rw [ByteArray.toList.loop, if_neg hge, List.drop_eq_nil_of_le hlength, List.append_nil]

/-- The bytes of a text are those of its characters. -/
theorem toList_toUTF8 (s : String) : s.toUTF8.toList = s.toList.flatMap String.utf8EncodeChar := by
  have hbytes : s.toUTF8 = (s.toList.flatMap String.utf8EncodeChar).toByteArray :=
    congrArg String.toByteArray String.ofList_toList.symm
  rw [hbytes, ByteArray.toList, toList_loop, List.drop_zero, List.toList_data_toByteArray]
  rfl

theorem toList_toUTF8_toString (c : Char) :
    c.toString.toUTF8.toList = String.utf8EncodeChar c := by
  rw [toList_toUTF8, Char.toString_eq_singleton, String.toList_singleton, List.flatMap_singleton]

end BringUp

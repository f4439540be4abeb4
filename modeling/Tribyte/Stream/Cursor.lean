import Tribyte.Stream

/-!
# Reading a stream step by step

A cursor walks a code stream and yields one instruction a call. After the last instruction, or after
the error at a truncated end, it has no offset any more and yields nothing.
-/

namespace Tribyte

structure Cursor where
  layout : Layout
  bytes : List UInt8
  offset : Option Nat := some 0

namespace Cursor

def stop (c : Cursor) : Cursor := { c with offset := none }

def next (c : Cursor) : Option (Except Error Instruction) × Cursor :=
  match c.offset with
  | none => (none, c)
  | some offset =>
    if c.bytes.length ≤ offset then (none, c.stop)
    else
      match c.layout.readHead (c.bytes.drop offset) with
      | .ok (i, size) => (some (.ok i), { c with offset := some (offset + size) })
      | .error _ => (some (.error (.truncated offset (c.bytes.length - offset))), c.stop)

theorem next_of_none (l : Layout) (bytes : List UInt8) :
    next ⟨l, bytes, none⟩ = (none, ⟨l, bytes, none⟩) := rfl

theorem next_of_cons {l : Layout} {bytes rest : List UInt8} {offset : Nat} {a b c : UInt8}
    (h : bytes.drop offset = a :: b :: c :: rest) :
    next ⟨l, bytes, some offset⟩ =
      (some (.ok (l.unpack (Word.ofBytes a b c).toBits)), ⟨l, bytes, some (offset + 3)⟩) := by
  have hlen := congrArg List.length h
  simp only [List.length_drop, List.length_cons] at hlen
  have hle : ¬ bytes.length ≤ offset := by omega
  simp only [next, if_neg hle, h, Layout.readHead_cons, Instruction.width]

theorem next_of_length_lt {l : Layout} {bytes : List UInt8} {offset : Nat}
    (hlt : offset < bytes.length) (h : (bytes.drop offset).length < 3) :
    next ⟨l, bytes, some offset⟩ =
      (some (.error (.truncated offset (bytes.length - offset))), ⟨l, bytes, none⟩) := by
  have hle : ¬ bytes.length ≤ offset := by omega
  simp only [next, if_neg hle, Layout.readHead_of_length_lt h, stop]

theorem next_of_length_le {l : Layout} {bytes : List UInt8} {offset : Nat}
    (h : bytes.length ≤ offset) :
    next ⟨l, bytes, some offset⟩ = (none, ⟨l, bytes, none⟩) := by
  simp only [next, if_pos h, stop]

def remaining (c : Cursor) : Nat := c.offset.elim 0 (c.bytes.length - ·)

theorem remaining_next_lt {c rest : Cursor} {i : Instruction}
    (h : c.next = (some (.ok i), rest)) : rest.remaining < c.remaining := by
  obtain ⟨l, bytes, offset⟩ := c
  cases offset with
  | none => simp [next_of_none] at h
  | some offset =>
    rcases Nat.lt_or_ge offset bytes.length with hlt | hge
    · match hd : bytes.drop offset with
      | [] | [_] | [_, _] => simp [next_of_length_lt hlt (by simp [hd])] at h
      | a :: b :: d :: tail =>
        rw [next_of_cons hd, Prod.mk.injEq] at h
        obtain ⟨-, rfl⟩ := h
        simp only [remaining, Option.elim]
        omega
    · simp [next_of_length_le hge] at h

/-- Calls `next` until it yields nothing more; the first error is the result. -/
def collect (c : Cursor) : Except Error (List Instruction) :=
  match h : c.next with
  | (none, _) => .ok []
  | (some (.error e), _) => .error e
  | (some (.ok i), rest) =>
    have := remaining_next_lt h
    (collect rest).map (i :: ·)
termination_by c.remaining

theorem collect_of_next_none {c rest : Cursor} (h : c.next = (none, rest)) :
    c.collect = .ok [] := by
  rw [collect]
  split <;> simp_all

theorem collect_of_next_error {c rest : Cursor} {e : Error}
    (h : c.next = (some (.error e), rest)) : c.collect = .error e := by
  rw [collect]
  split <;> simp_all

theorem collect_of_next_ok {c rest : Cursor} {i : Instruction}
    (h : c.next = (some (.ok i), rest)) : c.collect = rest.collect.map (i :: ·) := by
  rw [collect]
  split <;> simp_all

def take : Nat → Cursor → List (Option (Except Error Instruction))
  | 0, _ => []
  | n + 1, c => c.next.1 :: take n c.next.2

end Cursor

end Tribyte

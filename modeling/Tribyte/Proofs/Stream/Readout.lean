import Tribyte.Proofs.Stream.Transcoding

/-!
# A memory read out from its head

Whoever reads the instruction at the head of a memory, steps over the bytes that it took and goes on
until no more can be read, gets what decoding gives. There is one read for every three bytes, and
what is left is too short for another one.
-/

namespace Tribyte

structure Readout where
  code : List Instruction
  stop : Error
  left : List UInt8

namespace Layout

variable {l : Layout} {memory : List UInt8}

theorem length_drop_of_readHead {i : Instruction} {size : Nat}
    (h : l.readHead memory = .ok (i, size)) : (memory.drop size).length < memory.length := by
  match memory with
  | [] | [_] | [_, _] => cases h
  | a :: b :: c :: rest =>
    cases h
    simp only [Instruction.width, List.length_drop, List.length_cons]
    omega

/-- Reads from the head and drops what was read, until that fails. -/
def readOut (l : Layout) (memory : List UInt8) : Readout :=
  match h : l.readHead memory with
  | .error cause => ⟨[], cause, memory⟩
  | .ok (i, size) =>
    have := length_drop_of_readHead h
    let rest := readOut l (memory.drop size)
    { rest with code := i :: rest.code }
termination_by memory.length
decreasing_by assumption

theorem readOut_of_error {cause : Error} (h : l.readHead memory = .error cause) :
    l.readOut memory = ⟨[], cause, memory⟩ := by
  rw [readOut]
  split <;> simp_all

theorem readOut_of_ok {i : Instruction} {size : Nat} (h : l.readHead memory = .ok (i, size)) :
    l.readOut memory =
      { l.readOut (memory.drop size) with code := i :: (l.readOut (memory.drop size)).code } := by
  rw [readOut]
  split <;> simp_all

theorem readHead_take (l : Layout) (memory : List UInt8) :
    l.readHead (memory.take 3) = l.readHead memory := by
  match memory with
  | [] | [_] | [_, _] => rfl
  | a :: b :: c :: rest => exact (readHead_cons l a b c []).trans (readHead_cons l a b c rest).symm

theorem size_of_readHead {i : Instruction} {size : Nat}
    (h : l.readHead memory = .ok (i, size)) : size = Instruction.width := by
  match memory with
  | [] | [_] | [_, _] => cases h
  | _ :: _ :: _ :: _ =>
    cases h
    rfl

theorem readOut_cons (l : Layout) (a b c : UInt8) (rest : List UInt8) :
    l.readOut (a :: b :: c :: rest) =
      { l.readOut rest with
        code := l.unpack (Word.ofBytes a b c).toBits :: (l.readOut rest).code } :=
  readOut_of_ok (readHead_cons l a b c rest)

theorem readOut_eq_scan (l : Layout) : ∀ memory : List UInt8,
    l.readOut memory =
      ⟨(Stream.scan l memory).1, .invalidLength 3 (memory.length % 3), (Stream.scan l memory).2⟩
  | [] | [_] | [_, _] => readOut_of_error rfl
  | a :: b :: c :: rest => by
    have hlength : (a :: b :: c :: rest).length % 3 = rest.length % 3 := by
      simp only [List.length_cons]
      omega
    rw [readOut_cons, readOut_eq_scan l rest, Stream.scan_cons, hlength]

end Layout

namespace Stream

theorem encode_scan_append (l : Layout) : ∀ bytes : List UInt8,
    encode l (scan l bytes).1 ++ (scan l bytes).2 = bytes
  | [] | [_] | [_, _] => rfl
  | a :: b :: c :: rest => by
    rw [scan_cons, encode_cons, Layout.encode_unpack_ofBytes, List.append_assoc,
      encode_scan_append l rest]
    rfl

theorem scan_snd_eq_drop (l : Layout) (bytes : List UInt8) :
    (scan l bytes).2 = bytes.drop (bytes.length - bytes.length % 3) := by
  obtain ⟨hcode, -⟩ := length_scan l bytes
  have hfront : (encode l (scan l bytes).1).length = bytes.length - bytes.length % 3 := by
    rw [length_encode, hcode]
    omega
  have hdrop : (encode l (scan l bytes).1 ++ (scan l bytes).2).drop
      (encode l (scan l bytes).1).length = (scan l bytes).2 := List.drop_left
  rw [encode_scan_append, hfront] at hdrop
  exact hdrop.symm

theorem decode_eq_ite_scan (l : Layout) (bytes : List UInt8) :
    decode l bytes =
      if (scan l bytes).2 = [] then .ok (scan l bytes).1
      else .error (.truncated (bytes.length - bytes.length % 3) (bytes.length % 3)) := by
  have hbytes := encode_scan_append l bytes
  by_cases hleft : (scan l bytes).2 = []
  · rw [hleft, List.append_nil] at hbytes
    rw [if_pos hleft, decode_eq_ok_iff, hbytes]
  · have hsome : ¬ 3 ∣ bytes.length := by
      intro hwhole
      have hnone := (length_scan l bytes).2
      rw [Nat.mod_eq_zero_of_dvd hwhole] at hnone
      exact hleft (List.eq_nil_of_length_eq_zero hnone)
    rw [if_neg hleft, decode_of_not_three_dvd hsome]

theorem getElem?_scan_of_length_lt {l : Layout} {bytes : List UInt8} (h : bytes.length < 3)
    (k : Nat) : (scan l bytes).1[k]? = (l.readHead (bytes.drop (3 * k))).toOption.map Prod.fst := by
  have hshort : (bytes.drop (3 * k)).length < 3 := by
    rw [List.length_drop]
    omega
  rw [scan_of_length_lt h, Layout.readHead_of_length_lt hshort]
  rfl

theorem getElem?_scan (l : Layout) : ∀ (bytes : List UInt8) (k : Nat),
    (scan l bytes).1[k]? = (l.readHead (bytes.drop (3 * k))).toOption.map Prod.fst
  | [], k | [_], k | [_, _], k => getElem?_scan_of_length_lt (by simp) k
  | a :: b :: c :: rest, 0 => by
    rw [scan_cons, Nat.mul_zero, List.drop_zero, Layout.readHead_cons]
    rfl
  | a :: b :: c :: rest, k + 1 => by
    rw [scan_cons, List.getElem?_cons_succ, getElem?_scan l rest k]
    rfl

theorem readHead_of_decode {l : Layout} {memory : List UInt8} {code : List Instruction}
    (h : decode l memory = .ok code) {k : Nat} {i : Instruction} (hi : code[k]? = some i) :
    l.readHead (memory.drop (Instruction.width * k)) = .ok (i, Instruction.width) := by
  have hscan : (scan l memory).1[k]? = some i := by rwa [scan_fst_of_decode h]
  rw [getElem?_scan] at hscan
  obtain ⟨⟨found, size⟩, hread, rfl⟩ := Option.map_eq_some_iff.mp hscan
  have hhead := Traversal.toOption_eq_some_iff.mp hread
  obtain rfl := Layout.size_of_readHead hhead
  exact hhead

end Stream

/-- There is one read for every three bytes, the one with the number `k` at the offset three times
`k`, and it depends on these bytes alone. The reading stops for want of bytes and leaves the last
one or two, or none; with them the instructions encode to the whole memory, and without them they
are what decoding gives. -/
theorem Layout.readOut_eq_decode_and_rest (l : Layout) (bytes : List UInt8) :
    let n := bytes.length
    let r := l.readOut bytes
    r.code.length = n / 3 ∧ r.stop = .invalidLength 3 (n % 3) ∧ l.readHead r.left = .error r.stop ∧
    r.left = bytes.drop (n - n % 3) ∧ r.left.length = n % 3 ∧
    Stream.encode l r.code ++ r.left = bytes ∧
    Stream.decode l bytes =
      (if r.left = [] then .ok r.code else .error (.truncated (n - n % 3) (n % 3))) ∧
    (∀ k, r.code[k]? = (l.readHead (bytes.drop (3 * k))).toOption.map Prod.fst) ∧
    ∀ memory, l.readHead (memory.take 3) = l.readHead memory := by
  obtain ⟨hcode, hleft⟩ := Stream.length_scan l bytes
  have hstop : (Stream.scan l bytes).2.length < 3 := by
    rw [hleft]
    exact Nat.mod_lt _ (by decide)
  intro n r
  have hr : r = _ := readOut_eq_scan l bytes
  rw [hr]
  refine ⟨hcode, rfl, ?_, Stream.scan_snd_eq_drop l bytes, hleft, Stream.encode_scan_append l bytes,
    Stream.decode_eq_ite_scan l bytes, Stream.getElem?_scan l bytes, readHead_take l⟩
  rw [readHead_of_length_lt hstop, hleft]

end Tribyte

import RegisterVm.Prototype.Encoding
import Mathlib

/-!
Readers against the bytes they are meant for. `Takes` says of a reader that, given bytes which start
with what was written for a value, it takes just that and answers the value, or fails when the value
is one it refuses. What follows the written bytes never matters, except that counts are bounded by
the bytes that are left, and every item of a count takes up at least one of them.
-/

namespace RegisterVm

open scoped List

namespace Text

theorem toList_loop (bytes : ByteArray) (seen : Nat) (done : List UInt8) :
    ByteArray.toList.loop bytes seen done = done.reverse ++ bytes.data.toList.drop seen := by
  induction left : bytes.size - seen generalizing seen done with
  | zero =>
      have past : bytes.data.toList.length ≤ seen := by
        simp only [Array.length_toList, ByteArray.size_data]
        omega
      rw [ByteArray.toList.loop, if_neg (by omega), List.drop_eq_nil_of_le past, List.append_nil]
  | succ n ih =>
      have inside : seen < bytes.data.toList.length := by
        simp only [Array.length_toList, ByteArray.size_data]
        omega
      have here : bytes.get! seen = bytes.data.toList[seen] := by
        simp only [Array.length_toList] at inside
        simp only [ByteArray.get!, Array.getElem_toList, getElem!_pos, inside]
      rw [ByteArray.toList.loop, if_pos (by omega), ih (seen + 1) _ (by omega),
        List.drop_eq_getElem_cons inside, here]
      simp only [List.reverse_cons, List.append_assoc, List.cons_append, List.nil_append]

theorem encodeUtf8_eq (s : String) : encodeUtf8 s = s.toUTF8.data.toList := by
  simp only [encodeUtf8, ByteArray.toList, toList_loop, List.reverse_nil, List.nil_append,
    List.drop_zero]

theorem length_encodeUtf8 (s : String) : (encodeUtf8 s).length = s.utf8ByteSize := by
  simp only [encodeUtf8_eq, Array.length_toList, ByteArray.size_data]
  rfl

theorem decodeUtf8_encodeUtf8 (s : String) : decodeUtf8 (encodeUtf8 s) = .ok s := by
  have same : (⟨(encodeUtf8 s).toArray⟩ : ByteArray) = s.toUTF8 := by
    rw [encodeUtf8_eq]
  have valid : s.toUTF8.IsValidUTF8 := s.isValidUTF8
  simp only [decodeUtf8, same, String.fromUTF8?, valid, dite_true]
  rfl

end Text

namespace Reader

variable {α β : Type}

/-- On bytes that start with `written` the reader takes just these and answers `x`, if `sound`
holds; if not, it fails. -/
def Takes (read : Reader α) (written : List UInt8) (sound : Prop) (x : α) : Prop :=
  ∀ rest, (sound → read (written ++ rest) = .ok (x, rest)) ∧
    (¬sound → ∃ fault, read (written ++ rest) = .error fault)

theorem Takes.of_reads {read : Reader α} {written : List UInt8} {x : α}
    (reads : ∀ rest, read (written ++ rest) = .ok (x, rest)) : Takes read written True x :=
  fun rest => ⟨fun _ => reads rest, fun unsound => absurd trivial unsound⟩

theorem takes_pure (x : α) : Takes (pure x) [] True x := Takes.of_reads fun _ => rfl

theorem Takes.bind {read : Reader α} {next : α → Reader β} {first second : List UInt8}
    {sound others : Prop} {x : α} {y : β} (here : Takes read first sound x)
    (after : sound → Takes (next x) second others y) :
    Takes (read >>= next) (first ++ second) (sound ∧ others) y := by
  intro rest
  have split : (read >>= next) (first ++ second ++ rest)
      = (read (first ++ (second ++ rest)) >>= fun r => next r.1 r.2) := by
    rw [List.append_assoc]
    rfl
  rw [split]
  constructor
  · intro ⟨soundHere, soundAfter⟩
    rw [(here _).1 soundHere]
    exact (after soundHere rest).1 soundAfter
  · intro unsound
    by_cases soundHere : sound
    · rw [(here _).1 soundHere]
      exact (after soundHere rest).2 fun soundAfter => unsound ⟨soundHere, soundAfter⟩
    · obtain ⟨fault, failed⟩ := (here (second ++ rest)).2 soundHere
      rw [failed]
      exact ⟨fault, rfl⟩

theorem Takes.congr {read : Reader α} {first second : List UInt8} {sound sound' : Prop} {x y : α}
    (takes : Takes read first sound x) (bytes : first = second) (conditions : sound ↔ sound')
    (values : sound → x = y) : Takes read second sound' y := by
  subst bytes
  intro rest
  constructor
  · intro holds
    rw [← values (conditions.mpr holds)]
    exact (takes rest).1 (conditions.mpr holds)
  · intro fails
    exact (takes rest).2 fun holds => fails (conditions.mp holds)

theorem takes_guard (condition : Prop) [Decidable condition] (x : α) (fault : DecodeError) :
    Takes (if condition then pure x else throw fault) [] condition x := by
  intro rest
  constructor
  · intro holds
    rw [if_pos holds]
    rfl
  · intro fails
    rw [if_neg fails]
    exact ⟨fault, rfl⟩

theorem Takes.unless {condition : Prop} [Decidable condition] {fault : DecodeError}
    {next : Unit → Reader β} {written : List UInt8} {sound : Prop} {y : β}
    (takes : Takes (next ()) written sound y) :
    Takes (if condition then throw fault >>= next else next ()) written (¬condition ∧ sound) y := by
  by_cases holds : condition
  · rw [if_pos holds]
    exact fun rest => ⟨fun ⟨fails, _⟩ => absurd holds fails, fun _ => ⟨fault, rfl⟩⟩
  · rw [if_neg holds]
    exact takes.congr rfl (by simp only [holds, not_false_eq_true, true_and]) fun _ => rfl

theorem takes_flag (b : Bool) : Takes flag (Binary.flag b) True b := by
  apply Takes.of_reads
  intro rest
  cases b <;> rfl

theorem getLsbD_byte (w shift : UInt32) (bound : shift.toNat < 32) (i : Nat) :
    ((w >>> shift).toUInt8.toUInt32 <<< shift).toBitVec.getLsbD i
      = (decide (shift.toNat ≤ i ∧ i < 32 ∧ i < shift.toNat + 8) && w.toBitVec.getLsbD i) := by
  have small : shift.toNat % BitVec.toNat (32 : BitVec 32) = shift.toNat := Nat.mod_eq_of_lt bound
  simp only [UInt32.toBitVec_shiftLeft, UInt32.toBitVec_shiftRight, UInt8.toBitVec_toUInt32,
    UInt32.toBitVec_toUInt8, BitVec.shiftLeft_eq', BitVec.ushiftRight_eq', BitVec.getLsbD_shiftLeft,
    BitVec.getLsbD_setWidth, BitVec.getLsbD_ushiftRight, BitVec.toNat_umod, UInt32.toNat_toBitVec,
    small]
  by_cases inside : shift.toNat ≤ i
  · rw [Nat.add_sub_cancel' inside, Bool.eq_iff_iff]
    simp only [Bool.and_eq_true, Bool.not_eq_true', decide_eq_true_eq, decide_eq_false_iff_not]
    constructor
    · rintro ⟨⟨_, _⟩, _, _, bit⟩
      exact ⟨by omega, bit⟩
    · rintro ⟨_, bit⟩
      exact ⟨⟨by omega, by omega⟩, by omega, by omega, bit⟩
  · have below : i < shift.toNat := by omega
    simp only [below, inside, decide_true, Bool.not_true, Bool.and_false, Bool.false_and,
      false_and, decide_false]

theorem joinWord_bytes (w : UInt32) :
    joinWord w.toUInt8 (w >>> 8).toUInt8 (w >>> 16).toUInt8 (w >>> 24).toUInt8 = w := by
  apply UInt32.toBitVec_inj.mp
  apply BitVec.eq_of_getLsbD_eq
  intro i bound
  have lowest : (w.toUInt8.toUInt32).toBitVec.getLsbD i
      = (decide (i < 8) && w.toBitVec.getLsbD i) := by
    simpa [bound] using getLsbD_byte w 0 (by decide) i
  simp only [joinWord, UInt32.toBitVec_or, BitVec.getLsbD_or, lowest,
    getLsbD_byte w 8 (by decide), getLsbD_byte w 16 (by decide), getLsbD_byte w 24 (by decide)]
  rw [Bool.eq_iff_iff]
  simp only [Bool.or_eq_true, Bool.and_eq_true, decide_eq_true_eq, ← or_and_right,
    and_iff_right_iff_imp, UInt32.reduceToNat]
  omega

theorem joinWord_halves (w : UInt64) :
    w.toUInt32.toUInt64 ||| ((w >>> 32).toUInt32.toUInt64 <<< 32) = w := by
  apply UInt64.toBitVec_inj.mp
  apply BitVec.eq_of_getLsbD_eq
  intro i bound
  have turn : (32 : UInt64).toBitVec % (64 : BitVec 64) = 32 := rfl
  have amount : BitVec.toNat (32 : BitVec 64) = 32 := rfl
  simp only [UInt64.toBitVec_or, UInt64.toBitVec_shiftLeft, UInt64.toBitVec_shiftRight,
    UInt32.toBitVec_toUInt64, UInt64.toBitVec_toUInt32, BitVec.getLsbD_or, turn,
    BitVec.shiftLeft_eq', BitVec.ushiftRight_eq', BitVec.getLsbD_shiftLeft,
    BitVec.getLsbD_setWidth, BitVec.getLsbD_ushiftRight, amount, bound, decide_true, Bool.true_and]
  by_cases low : i < 32
  · simp only [low, decide_true, Bool.true_and, Bool.not_true, Bool.false_and, Bool.or_false]
  · have high : i - 32 < 32 := by omega
    have back : 32 + (i - 32) = i := by omega
    have within : i - 32 < 64 := by omega
    simp only [low, high, back, within, decide_false, decide_true, Bool.true_and, Bool.not_false,
      Bool.false_and, Bool.false_or]

theorem toUInt8_shiftRight (w shift : UInt64) (bound : shift.toNat ≤ 24) :
    (w.toUInt32 >>> shift.toUInt32).toUInt8 = (w >>> shift).toUInt8 := by
  apply UInt8.toNat_inj.mp
  have small : shift.toNat % 2 ^ 32 % 32 = shift.toNat := by omega
  have small' : shift.toNat % 64 = shift.toNat := by omega
  simp only [UInt32.toNat_toUInt8, UInt64.toNat_toUInt8, UInt32.toNat_shiftRight,
    UInt64.toNat_shiftRight, UInt64.toNat_toUInt32, small, small']
  apply Nat.eq_of_testBit_eq
  intro i
  simp only [Nat.testBit_mod_two_pow, Nat.testBit_shiftRight]
  by_cases low : i < 8
  · have inside : shift.toNat + i < 32 := by omega
    simp only [low, inside, decide_true, Bool.true_and]
  · simp only [low, decide_false, Bool.false_and]

theorem joinWord_lower (w : UInt64) :
    joinWord w.toUInt8 (w >>> 8).toUInt8 (w >>> 16).toUInt8 (w >>> 24).toUInt8 = w.toUInt32 := by
  rw [← toUInt8_shiftRight w 8 (by decide), ← toUInt8_shiftRight w 16 (by decide),
    ← toUInt8_shiftRight w 24 (by decide), ← UInt64.toUInt8_toUInt32 w]
  exact joinWord_bytes w.toUInt32

theorem shiftRight_upper (w shift : UInt64) (bound : shift.toNat ≤ 24) :
    w >>> 32 >>> shift = w >>> (32 + shift) := by
  apply UInt64.toNat_inj.mp
  have sum : (32 + shift.toNat) % 2 ^ 64 % 64 = 32 + shift.toNat := by omega
  have small : shift.toNat % 64 = shift.toNat := by omega
  simp only [UInt64.toNat_shiftRight, UInt64.toNat_add, UInt64.reduceToNat, sum, small,
    Nat.shiftRight_add, Nat.reduceMod]

theorem takes_number (w : UInt64) : Takes number (Binary.doubleWord w) True w := by
  apply Takes.of_reads
  intro rest
  have upper := joinWord_lower (w >>> 32)
  rw [shiftRight_upper w 8 (by decide), shiftRight_upper w 16 (by decide),
    shiftRight_upper w 24 (by decide)] at upper
  have high : joinWord (w >>> 32).toUInt8 (w >>> 40).toUInt8 (w >>> 48).toUInt8
      (w >>> 56).toUInt8 = (w >>> 32).toUInt32 := upper
  simp only [number, Binary.doubleWord, List.cons_append, List.nil_append, joinWord_lower w, high,
    joinWord_halves]

theorem takes_word (w : UInt32) : Takes word (Binary.word w) True w := by
  apply Takes.of_reads
  intro rest
  simp only [word, Binary.word, List.cons_append, List.nil_append, joinWord_bytes]

theorem length_count {n : Nat} (bound : n < 2 ^ 32) {rest : List UInt8} (room : n ≤ rest.length) :
    length (Binary.count n ++ rest) = .ok (n, rest) := by
  have read := (takes_word n.toUInt32 rest).1 trivial
  have back : n.toUInt32.toNat = n := UInt32.toNat_ofNat_of_lt bound
  have enough : ¬rest.length < n := by omega
  calc length (Binary.count n ++ rest)
      = (word (Binary.word n.toUInt32 ++ rest) >>= fun r =>
          (if r.2.length < r.1.toNat then throw (.lengthTooLarge r.1.toNat) else return r.1.toNat :
            Reader Nat) r.2) := rfl
    _ = .ok (n, rest) := by
        rw [read]
        simp only [bind, Except.bind, back, enough, if_false]
        rfl

theorem takes_counted {n : Nat} {next : Nat → Reader β} {body : List UInt8} {sound : Prop} {y : β}
    (bound : n < 2 ^ 32) (room : n ≤ body.length) (after : Takes (next n) body sound y) :
    Takes (length >>= next) (Binary.count n ++ body) sound y := by
  intro rest
  have enough : n ≤ (body ++ rest).length := by
    rw [List.length_append]
    omega
  have split : (length >>= next) (Binary.count n ++ body ++ rest)
      = (length (Binary.count n ++ (body ++ rest)) >>= fun r => next r.1 r.2) := by
    rw [List.append_assoc]
    rfl
  rw [split, length_count bound enough]
  exact after rest

theorem takes_string {s : String} (bound : s.utf8ByteSize < 2 ^ 32) :
    Takes string (Binary.string s) True s := by
  have size := Text.length_encodeUtf8 s
  apply takes_counted bound (Nat.le_of_eq size.symm)
  apply Takes.of_reads
  intro rest
  have taken : (Text.encodeUtf8 s ++ rest).take s.utf8ByteSize = Text.encodeUtf8 s :=
    List.take_left' size
  have left : (Text.encodeUtf8 s ++ rest).drop s.utf8ByteSize = rest := List.drop_left' size
  simp only [bind, StateT.bind, Except.bind, get, getThe, MonadStateOf.get, StateT.get, set,
    StateT.set, pure, Except.pure, taken, left, Text.decodeUtf8_encodeUtf8]
  rfl

theorem takes_times {α β : Type} {item : Reader β} {write : α → List UInt8} {sound : α → Prop}
    {value : α → β} (xs : List α) (takes : ∀ x ∈ xs, Takes item (write x) (sound x) (value x))
    (done : Array β) :
    Takes (times item xs.length done) (xs.flatMap write) (∀ x ∈ xs, sound x)
      (done ++ (xs.map value).toArray) := by
  induction xs generalizing done with
  | nil =>
      refine (takes_pure done).congr rfl ?_ fun _ => ?_
      · simp only [List.not_mem_nil, false_implies, implies_true]
      · simp only [List.map_nil, Array.append_empty]
  | cons x xs ih =>
      have here := takes x List.mem_cons_self
      have others := ih (fun y member => takes y (List.mem_cons_of_mem x member))
        (done.push (value x))
      refine (here.bind fun _ => others).congr rfl ?_ fun _ => ?_
      · exact List.forall_mem_cons.symm
      · simp

theorem takes_many {α β : Type} {item : Reader β} {write : α → List UInt8} {sound : α → Prop}
    {value : α → β} (xs : List α) (bound : xs.length < 2 ^ 32)
    (takes : ∀ x ∈ xs, Takes item (write x) (sound x) (value x))
    (filled : ∀ x ∈ xs, write x ≠ []) :
    Takes (many item) (Binary.count xs.length ++ xs.flatMap write) (∀ x ∈ xs, sound x)
      (xs.map value).toArray := by
  have room : xs.length ≤ (xs.flatMap write).length := by
    have each : ∀ size ∈ xs.map fun x => (write x).length, 1 ≤ size := by
      intro size member
      obtain ⟨x, inside, rfl⟩ := List.mem_map.mp member
      exact List.length_pos_iff.mpr (filled x inside)
    have total := List.length_le_sum_of_one_le _ each
    rwa [List.length_map, ← List.length_flatMap] at total
  have items := takes_times xs takes #[]
  rw [Array.empty_append] at items
  exact takes_counted bound room items

end Reader

end RegisterVm

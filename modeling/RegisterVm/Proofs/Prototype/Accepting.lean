import RegisterVm.Proofs.Prototype.RoundTrip

/-!
Readers as recognizers. `Accepts` says of a reader that it takes the texts of sound items and no
others, and of each just that text, whatever bytes follow it. Different items may have one value,
which is how a reader forgets how a thing was spelled. What is accepted piece by piece is accepted
as a whole, so nothing has to be said about the bytes a reader stops at.
-/

namespace RegisterVm

open scoped List

namespace Binary

def counted {α : Type} (spell : α → List UInt8) (xs : List α) : List UInt8 :=
  count xs.length ++ xs.flatMap spell

theorem count_toNat (w : UInt32) : count w.toNat = word w := by
  rw [count, Nat.toUInt32_eq, UInt32.ofNat_toNat]

theorem doubleWord_eq (w : UInt64) : doubleWord w = word w.toUInt32 ++ word (w >>> 32).toUInt32 := by
  have low (shift : UInt64) (bound : shift.toNat ≤ 24) := Reader.toUInt8_shiftRight w shift bound
  have high (shift : UInt64) (bound : shift.toNat ≤ 24) :
      ((w >>> 32).toUInt32 >>> shift.toUInt32).toUInt8 = (w >>> (32 + shift)).toUInt8 := by
    rw [Reader.toUInt8_shiftRight (w >>> 32) shift bound, Reader.shiftRight_upper w shift bound]
  have first := UInt64.toUInt8_toUInt32 w
  have fifth := UInt64.toUInt8_toUInt32 (w >>> 32)
  simp only [word, List.cons_append, List.nil_append, first, fifth]
  rw [show (8 : UInt32) = (8 : UInt64).toUInt32 from rfl,
    show (16 : UInt32) = (16 : UInt64).toUInt32 from rfl,
    show (24 : UInt32) = (24 : UInt64).toUInt32 from rfl]
  rw [low 8 (by decide), low 16 (by decide), low 24 (by decide), high 8 (by decide),
    high 16 (by decide), high 24 (by decide)]
  rfl

end Binary

namespace Reader

variable {α β γ δ : Type}

/-- The reader takes the texts that `spell` gives to `sound` items, each with the value of its item,
and fails on bytes that do not start with such a text. -/
def Accepts (read : Reader β) (spell : α → List UInt8) (sound : α → Prop) (value : α → β) : Prop :=
  ∀ bytes y rest, read bytes = .ok (y, rest) ↔ ∃ x, sound x ∧ bytes = spell x ++ rest ∧ value x = y

variable {read : Reader β} {spell : α → List UInt8} {sound : α → Prop} {value : α → β}

theorem Accepts.of_takes (takes : ∀ x, sound x → Takes read (spell x) True (value x))
    (only : ∀ bytes y rest, read bytes = .ok (y, rest) → ∃ x, sound x ∧ bytes = spell x ++ rest) :
    Accepts read spell sound value := by
  intro bytes y rest
  constructor
  · intro accepted
    obtain ⟨x, holds, rfl⟩ := only bytes y rest accepted
    have found := (takes x holds rest).1 trivial
    rw [accepted] at found
    exact ⟨x, holds, rfl, (congrArg Prod.fst (Except.ok.inj found)).symm⟩
  · rintro ⟨x, holds, rfl, rfl⟩
    exact (takes x holds rest).1 trivial

theorem Accepts.reads (accepts : Accepts read spell sound value) {x : α} (holds : sound x)
    (rest : List UInt8) : read (spell x ++ rest) = .ok (value x, rest) :=
  (accepts _ _ _).mpr ⟨x, holds, rfl, rfl⟩

theorem bind_ok {next : β → Reader γ} {bytes : List UInt8} {z : γ} {rest : List UInt8} :
    (read >>= next) bytes = .ok (z, rest) ↔
      ∃ y between, read bytes = .ok (y, between) ∧ next y between = .ok (z, rest) := by
  have split : (read >>= next) bytes = (read bytes >>= fun r => next r.1 r.2) := rfl
  rw [split]
  cases first : read bytes with
  | error fault => simp [bind, Except.bind]
  | ok r =>
      obtain ⟨y, between⟩ := r
      simp [bind, Except.bind]

theorem Accepts.bind {next : β → Reader δ} {spell' : γ → List UInt8} {sound' : α → γ → Prop}
    {value' : α → γ → δ} (here : Accepts read spell sound value)
    (after : ∀ x, Accepts (next (value x)) spell' (sound' x) (value' x)) :
    Accepts (read >>= next) (fun xy : α × γ => spell xy.1 ++ spell' xy.2)
      (fun xy => sound xy.1 ∧ sound' xy.1 xy.2) fun xy => value' xy.1 xy.2 := by
  intro bytes z rest
  rw [bind_ok]
  constructor
  · rintro ⟨y, between, first, second⟩
    obtain ⟨x, soundHere, rfl, rfl⟩ := (here _ _ _).mp first
    obtain ⟨x', soundAfter, rfl, rfl⟩ := (after x _ _ _).mp second
    exact ⟨(x, x'), ⟨soundHere, soundAfter⟩, (List.append_assoc _ _ _).symm, rfl⟩
  · rintro ⟨⟨x, x'⟩, ⟨soundHere, soundAfter⟩, rfl, rfl⟩
    rw [List.append_assoc]
    exact ⟨value x, spell' x' ++ rest, here.reads soundHere _, (after x).reads soundAfter _⟩

theorem Accepts.reshape {spell' : γ → List UInt8} {sound' : γ → Prop} {value' : γ → β}
    (accepts : Accepts read spell sound value) (shape : α → γ) (onto : ∀ z, ∃ x, shape x = z)
    (spells : ∀ x, spell' (shape x) = spell x) (sounds : ∀ x, sound' (shape x) ↔ sound x)
    (values : ∀ x, value' (shape x) = value x) : Accepts read spell' sound' value' := by
  intro bytes y rest
  rw [accepts]
  constructor
  · rintro ⟨x, holds, rfl, rfl⟩
    exact ⟨shape x, (sounds x).mpr holds, by rw [spells], values x⟩
  · rintro ⟨z, holds, rfl, rfl⟩
    obtain ⟨x, rfl⟩ := onto z
    exact ⟨x, (sounds x).mp holds, by rw [spells], (values x).symm⟩

theorem accepts_pure (y : β) : Accepts (pure y) (fun _ : Unit => []) (fun _ => True) fun _ => y :=
  Accepts.of_takes (fun _ _ => takes_pure y) fun _ _ _ accepted =>
    ⟨(), trivial, congrArg Prod.snd (Except.ok.inj accepted)⟩

theorem accepts_guard (condition : Prop) [Decidable condition] (y : β) (fault : DecodeError) :
    Accepts (if condition then pure y else throw fault) (fun _ : Unit => []) (fun _ => condition)
      fun _ => y := by
  by_cases holds : condition
  · simpa only [holds, if_true] using accepts_pure y
  · simp only [holds, if_false]
    intro bytes y' rest
    constructor
    · exact fun accepted => nomatch accepted
    · rintro ⟨_, absurdity, _⟩
      contradiction

theorem Accepts.unless {condition : Prop} [Decidable condition] {fault : DecodeError}
    {next : Unit → Reader β} (accepts : Accepts (next ()) spell sound value) :
    Accepts (if condition then throw fault >>= next else next ()) spell
      (fun x => ¬condition ∧ sound x) value := by
  by_cases holds : condition
  · simp only [holds, if_true]
    intro bytes y rest
    constructor
    · exact fun accepted => nomatch accepted
    · rintro ⟨x, ⟨absurdity, _⟩, _⟩
      contradiction
  · simpa only [holds, if_false, not_false_eq_true, true_and] using accepts

theorem accepts_byte : Accepts byte (fun b => [b]) (fun _ => True) id := by
  refine Accepts.of_takes (fun _ _ => Takes.of_reads fun _ => rfl) fun bytes y rest accepted => ?_
  cases bytes with
  | nil => contradiction
  | cons b left => exact ⟨b, trivial, congrArg (b :: ·) (congrArg Prod.snd (Except.ok.inj accepted))⟩

theorem accepts_flag : Accepts flag (fun b => [b]) (fun _ => True) (· != 0) :=
  (accepts_byte.bind fun b => accepts_pure (b != 0)).reshape Prod.fst (fun b => ⟨(b, ()), rfl⟩)
    (fun _ => rfl) (fun _ => by simp only [and_self]) fun _ => rfl

theorem getLsbD_joinWord (b0 b1 b2 b3 : UInt8) (i : Nat) :
    (joinWord b0 b1 b2 b3).toBitVec.getLsbD i
      = if i < 8 then b0.toBitVec.getLsbD i
        else if i < 16 then b1.toBitVec.getLsbD (i - 8)
        else if i < 24 then b2.toBitVec.getLsbD (i - 16)
        else if i < 32 then b3.toBitVec.getLsbD (i - 24) else false := by
  have a8 : BitVec.toNat ((8 : UInt32).toBitVec % (32 : BitVec 32)) = 8 := rfl
  have a16 : BitVec.toNat ((16 : UInt32).toBitVec % (32 : BitVec 32)) = 16 := rfl
  have a24 : BitVec.toNat ((24 : UInt32).toBitVec % (32 : BitVec 32)) = 24 := rfl
  simp only [joinWord, UInt32.toBitVec_or, UInt32.toBitVec_shiftLeft, UInt8.toBitVec_toUInt32,
    BitVec.getLsbD_or, BitVec.shiftLeft_eq', BitVec.getLsbD_shiftLeft, BitVec.getLsbD_setWidth, a8,
    a16, a24]
  split_ifs <;> grind

theorem word_joinWord (b0 b1 b2 b3 : UInt8) :
    Binary.word (joinWord b0 b1 b2 b3) = [b0, b1, b2, b3] := by
  have a8 : BitVec.toNat ((8 : UInt32).toBitVec % (32 : BitVec 32)) = 8 := rfl
  have a16 : BitVec.toNat ((16 : UInt32).toBitVec % (32 : BitVec 32)) = 16 := rfl
  have a24 : BitVec.toNat ((24 : UInt32).toBitVec % (32 : BitVec 32)) = 24 := rfl
  simp only [Binary.word, List.cons.injEq, and_true]
  refine ⟨?_, ?_, ?_, ?_⟩
  all_goals
    apply UInt8.toBitVec_inj.mp
    apply BitVec.eq_of_getLsbD_eq
    intro i bound
    simp only [UInt32.toBitVec_toUInt8, UInt32.toBitVec_shiftRight, BitVec.getLsbD_setWidth,
      BitVec.ushiftRight_eq', BitVec.getLsbD_ushiftRight, a8, a16, a24, getLsbD_joinWord]
    grind

theorem accepts_word : Accepts word Binary.word (fun _ => True) id := by
  refine Accepts.of_takes (fun w _ => takes_word w) fun bytes y rest accepted => ?_
  match bytes with
  | [] | [_] | [_, _] | [_, _, _] => contradiction
  | b0 :: b1 :: b2 :: b3 :: left =>
      obtain rfl := congrArg Prod.snd (Except.ok.inj accepted)
      refine ⟨joinWord b0 b1 b2 b3, trivial, ?_⟩
      rw [word_joinWord]
      rfl

theorem toUInt32_joined (low high : UInt32) :
    (low.toUInt64 ||| (high.toUInt64 <<< 32)).toUInt32 = low ∧
      ((low.toUInt64 ||| (high.toUInt64 <<< 32)) >>> 32).toUInt32 = high := by
  have amount : BitVec.toNat ((32 : UInt64).toBitVec % (64 : BitVec 64)) = 32 := rfl
  constructor
  all_goals
    apply UInt32.toBitVec_inj.mp
    apply BitVec.eq_of_getLsbD_eq
    intro i bound
    simp only [UInt64.toBitVec_toUInt32, UInt64.toBitVec_or, UInt64.toBitVec_shiftLeft,
      UInt64.toBitVec_shiftRight, UInt32.toBitVec_toUInt64, BitVec.getLsbD_setWidth,
      BitVec.getLsbD_or, BitVec.shiftLeft_eq', BitVec.ushiftRight_eq', BitVec.getLsbD_shiftLeft,
      BitVec.getLsbD_ushiftRight, amount]
    grind

theorem accepts_number : Accepts number Binary.doubleWord (fun _ => True) id := by
  refine Accepts.of_takes (fun w _ => takes_number w) fun bytes y rest accepted => ?_
  match bytes with
  | [] | [_] | [_, _] | [_, _, _] | [_, _, _, _] | [_, _, _, _, _] | [_, _, _, _, _, _]
  | [_, _, _, _, _, _, _] => contradiction
  | b0 :: b1 :: b2 :: b3 :: b4 :: b5 :: b6 :: b7 :: left =>
      obtain rfl := congrArg Prod.snd (Except.ok.inj accepted)
      obtain ⟨low, high⟩ := toUInt32_joined (joinWord b0 b1 b2 b3) (joinWord b4 b5 b6 b7)
      refine ⟨(joinWord b0 b1 b2 b3).toUInt64 ||| ((joinWord b4 b5 b6 b7).toUInt64 <<< 32), trivial,
        ?_⟩
      rw [Binary.doubleWord_eq, low, high, word_joinWord, word_joinWord]
      rfl

theorem length_ok {bytes rest : List UInt8} {n : Nat} :
    length bytes = .ok (n, rest) ↔
      n < 2 ^ 32 ∧ n ≤ rest.length ∧ bytes = Binary.count n ++ rest := by
  constructor
  · intro accepted
    obtain ⟨w, between, first, second⟩ := bind_ok.mp accepted
    obtain ⟨w', -, rfl, rfl⟩ := (accepts_word _ _ _).mp first
    have bounded : (if between.length < w'.toNat then .error (.lengthTooLarge w'.toNat)
        else .ok (w'.toNat, between) : Except DecodeError (Nat × List UInt8)) = .ok (n, rest) := by
      rw [← second]
      simp only [id, bind, StateT.bind, Except.bind, get, getThe, MonadStateOf.get, StateT.get,
        pure, Except.pure]
      split <;> rfl
    split at bounded
    · contradiction
    · have same := Except.ok.inj bounded
      simp only [Prod.mk.injEq] at same
      obtain ⟨rfl, rfl⟩ := same
      exact ⟨w'.toNat_lt, by omega, by rw [Binary.count_toNat]⟩
  · rintro ⟨bound, room, rfl⟩
    exact length_count bound room

theorem times_ok {item : Reader β} (accepts : Accepts item spell sound value) {n : Nat}
    {done : Array β} {bytes : List UInt8} {ys : Array β} {rest : List UInt8}
    (accepted : times item n done bytes = .ok (ys, rest)) :
    ∃ xs : List α, xs.length = n ∧ (∀ x ∈ xs, sound x) ∧ bytes = xs.flatMap spell ++ rest := by
  induction n generalizing done bytes with
  | zero =>
      obtain rfl := congrArg Prod.snd (Except.ok.inj accepted)
      exact ⟨[], rfl, fun _ member => absurd member List.not_mem_nil, rfl⟩
  | succ n ih =>
      obtain ⟨y, between, first, others⟩ := bind_ok.mp accepted
      obtain ⟨x, holds, rfl, -⟩ := (accepts _ _ _).mp first
      obtain ⟨xs, rfl, sounds, rfl⟩ := ih others
      refine ⟨x :: xs, rfl, List.forall_mem_cons.mpr ⟨holds, sounds⟩, ?_⟩
      rw [List.flatMap_cons, List.append_assoc]

theorem Accepts.takes (accepts : Accepts read spell sound value) {x : α} (holds : sound x) :
    Takes read (spell x) True (value x) :=
  Takes.of_reads fun rest => accepts.reads holds rest

theorem Accepts.many (accepts : Accepts read spell sound value)
    (filled : ∀ x, sound x → spell x ≠ []) :
    Accepts (many read) (Binary.counted spell)
      (fun xs => xs.length < 2 ^ 32 ∧ ∀ x ∈ xs, sound x) fun xs => (xs.map value).toArray := by
  refine Accepts.of_takes (fun xs ⟨bound, sounds⟩ => ?_) fun bytes ys rest accepted => ?_
  · exact (takes_many xs bound (fun x member => accepts.takes (sounds x member))
      fun x member => filled x (sounds x member)).congr rfl (by simp only [implies_true]) fun _ => rfl
  · obtain ⟨n, between, first, items⟩ := bind_ok.mp accepted
    obtain ⟨bound, -, rfl⟩ := length_ok.mp first
    obtain ⟨xs, rfl, sounds, rfl⟩ := times_ok accepts items
    exact ⟨xs, ⟨bound, sounds⟩, (List.append_assoc _ _ _).symm⟩

end Reader

namespace Text

theorem encodeUtf8_of_decodeUtf8 {bytes : List UInt8} {s : String}
    (decoded : decodeUtf8 bytes = .ok s) : encodeUtf8 s = bytes := by
  unfold decodeUtf8 at decoded
  split at decoded
  · rename_i t found
    obtain rfl := Except.ok.inj decoded
    unfold String.fromUTF8? at found
    split at found
    · obtain rfl := Option.some.inj found
      rw [encodeUtf8_eq]
      rfl
    · contradiction
  · contradiction

end Text

namespace Reader

def text (n : Nat) : Reader String := fun bytes =>
  match Text.decodeUtf8 (bytes.take n) with
  | .ok s => .ok (s, bytes.drop n)
  | .error fault => .error (.invalidText fault)

theorem string_eq : string = length >>= text := by
  funext bytes
  cases first : length bytes with
  | error fault => simp only [string, bind, StateT.bind, Except.bind, first]
  | ok r =>
      simp only [string, text, bind, StateT.bind, Except.bind, first, get, getThe,
        MonadStateOf.get, StateT.get, set, StateT.set, pure, Except.pure]
      cases Text.decodeUtf8 (r.2.take r.1) <;> rfl

theorem accepts_string :
    Accepts string Binary.string (fun s => s.utf8ByteSize < 2 ^ 32) id := by
  refine Accepts.of_takes (fun s bound => takes_string bound) fun bytes s rest accepted => ?_
  rw [string_eq] at accepted
  obtain ⟨n, between, first, second⟩ := bind_ok.mp accepted
  obtain ⟨bound, room, rfl⟩ := length_ok.mp first
  unfold text at second
  split at second
  · rename_i t decoded
    have same := Except.ok.inj second
    simp only [Prod.mk.injEq] at same
    obtain ⟨rfl, rfl⟩ := same
    have form := Text.encodeUtf8_of_decodeUtf8 decoded
    have size : t.utf8ByteSize = n := by
      rw [← Text.length_encodeUtf8, form, List.length_take_of_le room]
    refine ⟨t, by omega, ?_⟩
    rw [Binary.string, form, size, List.append_assoc, List.take_append_drop]
  · contradiction

theorem accepts_instruction :
    Accepts instruction (fun i => Binary.word i.word) (fun i => i.opcode?.isSome) id := by
  refine Accepts.of_takes (fun i valid => ?_) fun bytes i rest accepted => ?_
  · exact (takes_instruction i).congr rfl (by simp only [valid]) fun _ => rfl
  · obtain ⟨w, between, first, check⟩ := bind_ok.mp accepted
    obtain ⟨w', -, rfl, rfl⟩ := (accepts_word _ _ _).mp first
    change (if (Instruction.opcode? ⟨w'⟩).isNone then throw (.invalidOpcode w') else pure ⟨w'⟩ :
      Reader Instruction) between = .ok (i, rest) at check
    split at check
    · contradiction
    · rename_i valid
      obtain rfl := congrArg Prod.snd (Except.ok.inj check)
      exact ⟨⟨w'⟩, by simpa [Option.isSome_iff_ne_none] using valid, rfl⟩

theorem accepts_constant :
    Accepts constant (fun k => formBytes k.encode)
      (fun k => k.Plain ∧ ∀ s, k = .string s → s.utf8ByteSize < 2 ^ 32) id := by
  refine Accepts.of_takes (fun k ⟨plain, fits⟩ => takes_constant plain fits)
    fun bytes y rest accepted => ?_
  obtain ⟨tag, left, first, branch⟩ := bind_ok.mp accepted
  obtain ⟨tag, -, rfl, rfl⟩ := (accepts_byte _ _ _).mp first
  -- the first three tags have nothing behind them
  have alone (k : Constant) (plain : k.Plain) (simple : ∀ s, k ≠ .string s)
      (form : formBytes k.encode = [tag]) (taken : (pure k : Reader Constant) left = .ok (y, rest)) :
      ∃ k : Constant, (k.Plain ∧ ∀ s, k = .string s → s.utf8ByteSize < 2 ^ 32) ∧
        [tag] ++ left = formBytes k.encode ++ rest := by
    obtain rfl := congrArg Prod.snd (Except.ok.inj taken)
    exact ⟨k, ⟨plain, fun s same => absurd same (simple s)⟩, by rw [form]⟩
  simp only [id, beq_iff_eq] at branch
  split_ifs at branch with isNil isFalse isTrue isNumber isString
  · exact alone .nil trivial (fun _ => nofun) (by rw [isNil]; rfl) branch
  · exact alone (.boolean false) trivial (fun _ => nofun) (by rw [isFalse]; rfl) branch
  · exact alone (.boolean true) trivial (fun _ => nofun) (by rw [isTrue]; rfl) branch
  · obtain ⟨bits, between, second, taken⟩ := bind_ok.mp branch
    obtain ⟨bits, -, rfl, rfl⟩ := (accepts_number _ _ _).mp second
    obtain rfl := congrArg Prod.snd (Except.ok.inj taken)
    exact ⟨.number bits, ⟨trivial, fun _ => nofun⟩, by rw [isNumber]; rfl⟩
  · obtain ⟨s, between, second, taken⟩ := bind_ok.mp branch
    obtain ⟨s, bound, rfl, rfl⟩ := (accepts_string _ _ _).mp second
    obtain rfl := congrArg Prod.snd (Except.ok.inj taken)
    refine ⟨.string s, ⟨trivial, fun t same => ?_⟩, by rw [isString]; rfl⟩
    rwa [← Constant.string.inj same]
  · contradiction

theorem accepts_localRange :
    Accepts localRange LocalRange.encode (fun l => l.name.utf8ByteSize < 2 ^ 32) id := by
  unfold localRange
  refine Accepts.reshape (accepts_string.bind fun _ => accepts_word.bind fun _ =>
    accepts_word.bind fun _ => accepts_pure _) (fun l => ⟨l.1, l.2.1, l.2.2.1⟩)
    (fun l => ⟨(l.name, l.startPc, l.endPc, ()), rfl⟩) ?_ ?_ fun _ => rfl
  · simp only [LocalRange.encode, List.append_nil, List.append_assoc, implies_true]
  · simp only [and_true, implies_true]

end Reader

end RegisterVm

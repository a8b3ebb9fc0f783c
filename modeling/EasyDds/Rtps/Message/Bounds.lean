import EasyDds.Lib.Run
import EasyDds.Rtps.Message.Sequences

/-!
Whether the readers of a message stay inside it. All checks are made in 32 bits: the sums
`pos + n` and the products of the element counts wrap, and the limit of a count is what was left
before its holder was read.
-/

namespace EasyDds.Rtps

open Prog List

/-- A byte read lies below `length`; an accepted amount is at most what was left. -/
def Access.InBounds (length : Nat) : Access → Prop
  | .read indices => ∀ i ∈ indices, i < length
  | .accepted cursor amount => amount ≤ length - cursor

instance (length : Nat) : (a : Access) → Decidable (a.InBounds length)
  | .read indices => inferInstanceAs (Decidable (∀ i ∈ indices, i < length))
  | .accepted _ _ => inferInstanceAs (Decidable (_ ≤ _))

namespace CdrMessage

section Conditions

variable {α : Type}

/-- What a reader finds is all right here, and then what the next one finds where it leaves off. -/
def ThenFits (m : Reader α) (here : CdrMessage → Prop) (next : α → CdrMessage → Prop)
    (msg : CdrMessage) : Prop :=
  here msg ∧ match m.run msg with
    | (.ok a, msg') => next a msg'
    | (.error _, _) => True

def EachFits (m : Reader α) (element : CdrMessage → Prop) : Nat → CdrMessage → Prop
  | 0, _ => True
  | n + 1, msg => ThenFits m element (fun _ => EachFits m element n) msg

/-- The sum `pos + n` does not wrap, or not to a place inside the message. -/
def SumFits (n : Nat) (msg : CdrMessage) : Prop :=
  msg.pos + n < 2 ^ 32 ∨ msg.length < msg.pos + n - 2 ^ 32

def Left (n : Nat) (msg : CdrMessage) : Prop := n ≤ msg.length - msg.pos

/-- There are so many bytes as elements, or the 32-bit product gives them away. -/
def CountFits (n start factor limit : Nat) (msg : CdrMessage) : Prop :=
  Left n msg ∨ limit < wrap32 (start + factor * n)

def OctetVectorFits : CdrMessage → Prop :=
  ThenFits (fits 4) (SumFits 4) fun _ => ThenFits readUInt32 (SumFits 4) Left

def StringFitsWith (chars : CdrMessage → Prop) : CdrMessage → Prop :=
  ThenFits (attempt readUInt32) (SumFits 4) fun size =>
    ThenFits (fits (size.getD 1)) (SumFits (size.getD 1)) fun _ msg => 1 < size.getD 1 → chars msg

def StringFits : CdrMessage → Prop := StringFitsWith fun _ => True

/-- There are 255 bytes, or a null is among those that there are. -/
def TextEnds (msg : CdrMessage) : Prop :=
  msg.pos + 255 ≤ msg.length ∨
    ∃ k < 255, msg.pos + k < msg.length ∧ msg.buffer (msg.pos + k) = 0

def String255Fits : CdrMessage → Prop := StringFitsWith TextEnds

def PropertyFits : CdrMessage → Prop := ThenFits readString StringFits fun _ => StringFits

def BinaryPropertyFits : CdrMessage → Prop :=
  ThenFits readString StringFits fun _ => OctetVectorFits

def PropertySeqFits (limit : Nat) : CdrMessage → Prop :=
  ThenFits readUInt32 (SumFits 4) fun n =>
    ThenFits (countFits n 0 16 limit) (CountFits n 0 16 limit) fun _ =>
      EachFits readProperty PropertyFits n

def BinaryPropertySeqFits (limit : Nat) : CdrMessage → Prop :=
  ThenFits readUInt32 (SumFits 4) fun n =>
    ThenFits (countFits n 0 12 limit) (CountFits n 0 12 limit) fun _ =>
      EachFits readBinaryProperty BinaryPropertyFits n

def DataHolderFits (limit : Nat) : CdrMessage → Prop :=
  ThenFits readString StringFits fun _ =>
    ThenFits (readPropertySeq limit) (PropertySeqFits limit) fun _ => BinaryPropertySeqFits limit

def DataHolderSeqFits : CdrMessage → Prop :=
  ThenFits readUInt32 (SumFits 4) fun n msg =>
    ThenFits (countFits n msg.pos 16 msg.length) (CountFits n msg.pos 16 msg.length) (fun _ =>
      EachFits readNextDataHolder (fun msg => DataHolderFits (sub32 msg.length msg.pos) msg) n) msg

def KeyFits : CdrMessage → Prop := ThenFits (readData true 12) (SumFits 12) fun _ => SumFits 4

def MessageIdentityFits : CdrMessage → Prop := ThenFits readKey KeyFits fun _ => SumFits 8

def ParticipantGenericMessageFits : CdrMessage → Prop :=
  ThenFits readMessageIdentity MessageIdentityFits fun _ =>
    ThenFits readMessageIdentity MessageIdentityFits fun _ => ThenFits readKey KeyFits fun _ =>
      ThenFits readKey KeyFits fun _ => ThenFits readKey KeyFits fun _ =>
        ThenFits readString StringFits fun _ => DataHolderSeqFits

end Conditions

section Exact

variable {α β : Type} {m : Reader α} {f : α → Reader β} {F : CdrMessage → Prop}
  {G : α → CdrMessage → Prop} {guard : CdrMessage → Prop} {msg msg' msg'' : CdrMessage}
  {as bs : List Access}

structure Extends (msg msg' : CdrMessage) (as : List Access) : Prop where
  length_eq : msg'.length = msg.length
  pos_lt : msg'.pos < 2 ^ 32
  accesses_eq : msg'.accesses = msg.accesses ++ as

lemma Extends.trans (h : Extends msg msg' as) (h' : Extends msg' msg'' bs) :
    Extends msg msg'' (as ++ bs) :=
  ⟨h'.length_eq.trans h.length_eq, h'.pos_lt, by
    rw [h'.accesses_eq, h.accesses_eq, append_assoc]⟩

/-- The accesses of a reader are in bounds exactly if the condition holds, where it is run with the
guard. -/
def ExactIf (guard : CdrMessage → Prop) (m : Reader α) (F : CdrMessage → Prop) : Prop :=
  ∀ msg : CdrMessage, msg.length < 2 ^ 32 → msg.pos < 2 ^ 32 →
    ∃ as, Extends msg (m.run msg).2 as ∧ (guard msg → ((∀ a ∈ as, a.InBounds msg.length) ↔ F msg))

abbrev Exact (m : Reader α) (F : CdrMessage → Prop) : Prop := ExactIf (fun _ => True) m F

abbrev Silent (m : Reader α) : Prop := Exact m fun _ => True

lemma Exact.guarded (h : Exact m F) : ExactIf guard m F := by
  intro msg hlen hpos
  obtain ⟨as, hadds, hiff⟩ := h msg hlen hpos
  exact ⟨as, hadds, fun _ => hiff trivial⟩

lemma ExactIf.congr {F' : CdrMessage → Prop} (h : ExactIf guard m F)
    (hF : ∀ msg : CdrMessage, msg.length < 2 ^ 32 → msg.pos < 2 ^ 32 → (F msg ↔ F' msg)) :
    ExactIf guard m F' := by
  intro msg hlen hpos
  obtain ⟨as, hadds, hiff⟩ := h msg hlen hpos
  exact ⟨as, hadds, fun hg => (hiff hg).trans (hF msg hlen hpos)⟩

lemma silent_modify {g : CdrMessage → CdrMessage}
    (h : ∀ msg : CdrMessage, msg.pos < 2 ^ 32 → Extends msg (g msg) []) : Silent (modify g) :=
  fun msg _ hpos => ⟨[], h msg hpos, by simp⟩

lemma silent_pure (a : α) : Silent (pure a : Reader α) :=
  fun msg _ hpos => ⟨[], ⟨rfl, hpos, by simp⟩, by simp⟩

lemma silent_raise : Silent (raise () : Reader α) :=
  fun msg _ hpos => ⟨[], ⟨rfl, hpos, by simp⟩, by simp⟩

/-- Two readers one after the other: the second finds the message as the first leaves it, and finds
nothing if the first fails. -/
theorem ExactIf.bind_yields {P : α → Prop} (hm : ExactIf guard m F) (hP : Yields P m)
    (hf : ∀ a, P a → Exact (f a) (G a)) : ExactIf guard (m >>= f) (ThenFits m F G) := by
  intro msg hlen hpos
  obtain ⟨as, hadds, hiff⟩ := hm msg hlen hpos
  rcases hrun : m.run msg with ⟨e | a, msg'⟩ <;> rw [hrun] at hadds
  · refine ⟨as, by rwa [bind_of_error hrun], fun hg => ?_⟩
    simp only [ThenFits, hrun, and_true, hiff hg]
  · obtain ⟨bs, hadds', hiff'⟩ := hf a (hP _ _ _ hrun) msg' (hadds.length_eq ▸ hlen) hadds.pos_lt
    refine ⟨as ++ bs, by rw [bind_of_ok hrun]; exact hadds.trans hadds', fun hg => ?_⟩
    have hlength : msg'.length = msg.length := hadds.length_eq
    rw [hlength] at hiff'
    simp only [ThenFits, hrun, forall_mem_append, hiff hg, hiff' trivial]

lemma ExactIf.bind (hm : ExactIf guard m F) (hf : ∀ a, Exact (f a) (G a)) :
    ExactIf guard (m >>= f) (ThenFits m F G) :=
  hm.bind_yields (P := fun _ => True) (fun _ _ _ _ => trivial) fun a _ => hf a

lemma thenFits_true : ThenFits m F (fun _ _ => True) msg ↔ F msg := by
  rw [ThenFits]
  split <;> simp

lemma ExactIf.bind_silent (hm : ExactIf guard m F) (hf : ∀ a, Silent (f a)) :
    ExactIf guard (m >>= f) F :=
  (hm.bind hf).congr fun _ _ _ => thenFits_true

lemma Exact.read_bind {g : CdrMessage → Reader α} {G : CdrMessage → CdrMessage → Prop}
    (h : ∀ msg, Exact (g msg) (G msg)) : Exact (read >>= g) fun msg => G msg msg :=
  fun msg hlen hpos => h msg msg hlen hpos

lemma Exact.attempt (h : Exact m F) : Exact (attempt m) F := by
  intro msg hlen hpos
  obtain ⟨as, hadds, hiff⟩ := h msg hlen hpos
  refine ⟨as, ?_, hiff⟩
  rcases hrun : m.run msg with ⟨e | a, msg'⟩ <;> rw [hrun] at hadds
  · rwa [attempt_of_error hrun]
  · rwa [attempt_of_ok hrun]

lemma Exact.times (h : Exact m F) (n : Nat) : Exact (times m n) (EachFits m F n) := by
  induction n with
  | zero => exact silent_pure []
  | succ n ih => exact h.bind fun _ => ih.bind_silent fun _ => silent_pure _

end Exact

section Accesses

lemma wrap32_lt (n : Nat) : wrap32 n < 2 ^ 32 := Nat.mod_lt _ (by decide)

lemma silent_advance (n : Nat) : Silent (advance n) :=
  silent_modify fun _ _ => ⟨rfl, wrap32_lt _, by simp⟩

lemma silent_align : Silent align :=
  silent_modify fun msg _ => ⟨rfl, by have := wrap32_lt (msg.pos + 3); dsimp only; omega, by simp⟩

variable {α : Type} {n : Nat} {G : CdrMessage → Prop}

lemma exact_accept (n : Nat) :
    Exact (read >>= fun msg => record (.accepted msg.pos n)) (Left n) :=
  fun msg _ hpos => ⟨[.accepted msg.pos n], ⟨rfl, hpos, rfl⟩, by simp [Access.InBounds, Left]⟩

/-- An amount that passes the check is there, unless the sum wrapped: the check adds in 32 bits. -/
theorem left_iff_sumFits {msg : CdrMessage} (hlen : msg.length < 2 ^ 32) (hpos : msg.pos < 2 ^ 32)
    (hn : n < 2 ^ 32) (h : ¬ msg.length < wrap32 (msg.pos + n)) : Left n msg ↔ SumFits n msg := by
  unfold wrap32 at h
  unfold Left SumFits
  omega

/-- The code after a sum check runs with the amount accepted. -/
theorem exact_fits_bind (hn : n < 2 ^ 32) {rest : Unit → Reader α}
    (hrest : ExactIf (Left n) (rest ()) G) :
    Exact (fits n >>= rest) (ThenFits (fits n) (SumFits n) fun _ => G) := by
  intro msg hlen hpos
  by_cases hover : msg.length < wrap32 (msg.pos + n)
  · have hrun : (fits n).run msg = (.error (), msg) := by
      simp only [fits, run_read_bind, hover, if_true, run_raise]
    have hfits : SumFits n msg := by
      unfold wrap32 at hover
      unfold SumFits
      omega
    exact ⟨[], by rw [bind_of_error hrun]; exact ⟨rfl, hpos, by simp⟩, by
      simp [ThenFits, hrun, hfits]⟩
  · have hrun : (fits n).run msg =
        (.ok (), { msg with accesses := msg.accesses ++ [.accepted msg.pos n] }) := by
      simp only [fits, record, run_read_bind, hover, if_false, run_modify]
    obtain ⟨bs, hadds, hiff⟩ := hrest
      { msg with accesses := msg.accesses ++ [.accepted msg.pos n] } hlen hpos
    have hfirst : Extends msg { msg with accesses := msg.accesses ++ [.accepted msg.pos n] }
      [.accepted msg.pos n] := ⟨rfl, hpos, rfl⟩
    refine ⟨_, by rw [bind_of_ok hrun]; exact hfirst.trans hadds, fun _ => ?_⟩
    simp only [ThenFits, hrun, forall_mem_append, forall_mem_singleton]
    rw [← left_iff_sumFits hlen hpos hn hover]
    exact and_congr_right fun hleft => hiff hleft

lemma exact_fits (hn : n < 2 ^ 32) : Exact (fits n) (SumFits n) := by
  rw [← bind_pure (fits n)]
  exact (exact_fits_bind hn (silent_pure ()).guarded).congr fun _ _ _ => thenFits_true

lemma exact_countFits (n start factor limit : Nat) :
    Exact (countFits n start factor limit) (CountFits n start factor limit) := by
  intro msg hlen hpos
  by_cases hover : limit < wrap32 (start + factor * n)
  · refine ⟨[], ?_, by simp [CountFits, hover]⟩
    simp only [countFits, run_read_bind, hover, if_true, run_raise]
    exact ⟨rfl, hpos, by simp⟩
  · refine ⟨[.accepted msg.pos n], ?_, by simp [CountFits, hover, Left, Access.InBounds]⟩
    simp only [countFits, record, run_read_bind, hover, if_false, run_modify]
    exact ⟨rfl, hpos, rfl⟩

lemma mem_span {p i : Nat} : i ∈ span p n ↔ ∃ k < n, p + k = i := by simp [span]

/-- A read of places within the amount that was accepted at the cursor. -/
theorem exact_fetch_bind {places : CdrMessage → List Nat}
    {rest : CdrMessage → List UInt8 → Reader α}
    (hwithin : ∀ msg : CdrMessage, ∀ i ∈ places msg,
      ∃ k < n, i = msg.pos + k ∨ i = wrap32 (msg.pos + k))
    (hrest : ∀ msg bytes, Silent (rest msg bytes)) :
    ExactIf (Left n) (read >>= fun msg => fetch (places msg) >>= rest msg) fun _ => True := by
  intro msg hlen hpos
  obtain ⟨bs, hadds, hiff⟩ := hrest msg ((places msg).map msg.buffer)
    { msg with accesses := msg.accesses ++ [.read (places msg)] } hlen hpos
  have hfirst : Extends msg { msg with accesses := msg.accesses ++ [.read (places msg)] }
    [.read (places msg)] := ⟨rfl, hpos, rfl⟩
  refine ⟨_, hfirst.trans hadds, fun hleft => ?_⟩
  simp only [forall_mem_append, forall_mem_singleton, Access.InBounds, iff_true]
  refine ⟨fun i hi => ?_, (hiff trivial).2 trivial⟩
  unfold Left at hleft
  obtain ⟨k, hk, rfl | rfl⟩ := hwithin msg i hi
  · omega
  · unfold wrap32
    omega

lemma span_within (p n : Nat) : ∀ i ∈ span p n, ∃ k < n, i = p + k ∨ i = wrap32 (p + k) := by
  intro i hi
  obtain ⟨k, hk, rfl⟩ := mem_span.mp hi
  exact ⟨k, hk, .inl rfl⟩

lemma indexedSpan_within (p : Nat) {m : Nat} (hle : m ≤ n) :
    ∀ i ∈ indexedSpan p m, ∃ k < n, i = p + k ∨ i = wrap32 (p + k) := by
  simp only [indexedSpan, mem_map, mem_range]
  rintro i ⟨k, hk, rfl⟩
  exact ⟨k, by omega, .inr rfl⟩

/-- `memccpy` looks at its 255 bytes or stops at a null. -/
theorem memccpySpan_inside (buffer : Mem) (length p n : Nat) :
    (∀ k < memccpySpan buffer p n, p + k < length) ↔
      n = 0 ∨ p + n ≤ length ∨ ∃ k < n, p + k < length ∧ buffer (p + k) = 0 := by
  induction n generalizing p with
  | zero => simp [memccpySpan]
  | succ n ih =>
    have ih := ih (p + 1)
    simp only [Nat.add_right_comm p 1] at ih
    rw [memccpySpan, Nat.exists_lt_succ_left]
    by_cases hnull : buffer p = 0
    · simp only [if_pos hnull, Nat.lt_one_iff, forall_eq, Nat.add_zero]
      grind
    · simp only [if_neg hnull, Nat.forall_lt_succ_left, ← Nat.add_assoc, ih, Nat.add_zero]
      grind

end Accesses

section Readers

variable {n : Nat}

lemma exact_readWord (hn : n < 2 ^ 32) : Exact (readWord n) (SumFits n) := by
  refine (exact_fits_bind hn (exact_fetch_bind (fun msg => ?_) fun _ _ => ?_)).congr
    fun _ _ _ => thenFits_true
  · split
    · exact indexedSpan_within _ (le_refl n)
    · exact span_within _ _
  · exact (silent_advance n).bind_silent fun _ => silent_pure _

lemma exact_readData (dest : Bool) (hn : n < 2 ^ 32) : Exact (readData dest n) (SumFits n) := by
  refine (exact_fits_bind hn (G := fun _ => True) ?_).congr fun _ _ _ => thenFits_true
  split
  case isFalse => exact (silent_pure []).guarded
  case isTrue =>
    split
    case isFalse => exact silent_raise.guarded
    case isTrue =>
      exact exact_fetch_bind (fun _ => span_within _ _) fun _ bytes =>
        (silent_advance n).bind_silent fun _ => silent_pure bytes

lemma yields_fetch (indices : List Nat) :
    Yields (fun bytes => bytes.length = indices.length) (fetch indices) := by
  refine .bind fun msg => .bind fun _ => .pure ?_
  simp

/-- A word of four bytes is below `2^32`. -/
theorem yields_readUInt32 : Yields (· < 2 ^ 32) readUInt32 := by
  refine .bind fun _ => .bind fun msg => (yields_fetch _).bind_yields fun bytes hbytes => ?_
  refine .bind fun _ => .pure ?_
  have hlt := ofWordBytes_lt (decide (msg.msgEndian = .bigend)) bytes
  have hfour : bytes.length = 4 := by
    rw [hbytes]
    split <;> simp [span, indexedSpan]
  rw [hfour] at hlt
  exact hlt

lemma exact_readUInt32 : Exact readUInt32 (SumFits 4) := exact_readWord (by decide)

lemma silent_orRaise (bytes : Option (List UInt8)) : Silent (do
    align
    match bytes with
    | some bytes => pure bytes
    | none => raise () : Reader (List UInt8)) := by
  refine silent_align.bind_silent fun _ => ?_
  cases bytes with
  | some bytes => exact silent_pure bytes
  | none => exact silent_raise

lemma exact_readOctetVector : Exact readOctetVector OctetVectorFits := by
  refine (exact_fits (by decide)).bind fun _ => ?_
  refine exact_readUInt32.bind_yields yields_readUInt32 fun n hn => ?_
  -- Where the amount is there, the check that follows does not wrap.
  refine ((exact_accept n).bind fun _ =>
    (exact_readData true hn).attempt.bind_silent silent_orRaise).congr fun msg hlen hpos => ?_
  exact and_iff_left_of_imp fun hleft => .inl (by unfold Left at hleft; dsimp only; omega)

lemma silent_advanceOrRaise (size : Option Nat) (text : List UInt8) : Silent (do
    advance (size.getD 1)
    align
    match size with
    | some _ => pure text
    | none => raise () : Reader (List UInt8)) := by
  refine (silent_advance _).bind_silent fun _ => silent_align.bind_silent fun _ => ?_
  cases size with
  | some n => exact silent_pure _
  | none => exact silent_raise

/-- Both string readers, by what they do for the characters. The length, its check and the step
behind the characters are common to them. -/
theorem exact_readStringWith {chars : CdrMessage → Nat → Reader (List UInt8)}
    {C : CdrMessage → Prop}
    (hchars : ∀ n, ExactIf (Left n) (read >>= fun msg => chars msg n) C) :
    Exact (readStringWith chars) (StringFitsWith C) := by
  refine exact_readUInt32.attempt.bind_yields yields_readUInt32.attempt fun size hsize => ?_
  have hn : size.getD 1 < 2 ^ 32 := by
    cases size with
    | none => decide
    | some n => exact hsize n rfl
  refine exact_fits_bind hn ?_
  by_cases hlong : 1 < size.getD 1
  · simp only [hlong, if_true, true_implies]
    exact (hchars _).bind_silent (silent_advanceOrRaise size)
  · simp only [hlong, if_false, false_implies]
    exact Exact.guarded ((silent_pure []).bind_silent (silent_advanceOrRaise size))

lemma exact_readString : Exact readString StringFits :=
  exact_readStringWith fun n =>
    exact_fetch_bind (fun _ => indexedSpan_within _ (n.sub_le 1)) fun _ => silent_pure

lemma exact_readString255 : Exact readString255 String255Fits := by
  refine exact_readStringWith fun n msg hlen hpos =>
    ⟨[.read (span msg.pos (memccpySpan msg.buffer msg.pos 255))], ⟨rfl, hpos, rfl⟩, fun _ => ?_⟩
  have h := memccpySpan_inside msg.buffer msg.length msg.pos 255
  simp only [forall_mem_singleton, Access.InBounds, mem_span, TextEnds]
  simp only [Nat.reduceEqDiff, false_or] at h
  rw [← h]
  constructor
  · intro hin k hk
    exact hin _ ⟨k, hk, rfl⟩
  · rintro hin i ⟨k, hk, rfl⟩
    exact hin k hk

lemma exact_readProperty : Exact readProperty PropertyFits :=
  exact_readString.bind fun _ => exact_readString.bind_silent fun _ => silent_pure _

lemma exact_readBinaryProperty : Exact readBinaryProperty BinaryPropertyFits :=
  exact_readString.bind fun _ => exact_readOctetVector.bind_silent fun _ => silent_pure _

lemma exact_readPropertySeq (limit : Nat) :
    Exact (readPropertySeq limit) (PropertySeqFits limit) :=
  exact_readUInt32.bind fun n => (exact_countFits n 0 16 limit).bind fun _ =>
    exact_readProperty.times n

lemma exact_readBinaryPropertySeq (limit : Nat) :
    Exact (readBinaryPropertySeq limit) (BinaryPropertySeqFits limit) :=
  exact_readUInt32.bind fun n => (exact_countFits n 0 12 limit).bind fun _ =>
    exact_readBinaryProperty.times n

lemma exact_readDataHolder (limit : Nat) : Exact (readDataHolder limit) (DataHolderFits limit) :=
  exact_readString.bind fun _ => (exact_readPropertySeq limit).bind fun _ =>
    (exact_readBinaryPropertySeq limit).bind_silent fun _ => silent_pure _

lemma exact_readDataHolderSeq : Exact readDataHolderSeq DataHolderSeqFits :=
  exact_readUInt32.bind fun n => Exact.read_bind fun msg =>
    (exact_countFits n msg.pos 16 msg.length).bind fun _ =>
      (Exact.read_bind fun msg => exact_readDataHolder (sub32 msg.length msg.pos)).times n

lemma exact_readKey : Exact readKey KeyFits :=
  (exact_readData true (by decide)).bind fun _ =>
    (exact_readData true (by decide)).bind_silent fun _ => silent_pure _

lemma exact_readMessageIdentity : Exact readMessageIdentity MessageIdentityFits :=
  exact_readKey.bind fun _ =>
    ((exact_readWord (by decide)).bind_silent fun _ => silent_pure _).bind_silent
      fun _ => silent_pure _

lemma exact_readParticipantGenericMessage :
    Exact readParticipantGenericMessage ParticipantGenericMessageFits :=
  exact_readMessageIdentity.bind fun _ => exact_readMessageIdentity.bind fun _ =>
    exact_readKey.bind fun _ => exact_readKey.bind fun _ => exact_readKey.bind fun _ =>
      exact_readString.bind fun _ => exact_readDataHolderSeq.bind_silent fun _ => silent_pure _

end Readers

inductive Call
  | readData (dest : Bool) (length : UInt32)
  | readOctetVector
  | readString
  | readString255
  | readPropertySeq (parameterLength : UInt32)
  | readBinaryPropertySeq (parameterLength : UInt32)
  | readDataHolderSeq
  | readParticipantGenericMessage
deriving DecidableEq, Repr

def Call.run (msg : CdrMessage) : Call → CdrMessage
  | .readData dest n => ((CdrMessage.readData dest n.toNat).run msg).2
  | .readOctetVector => (CdrMessage.readOctetVector.run msg).2
  | .readString => (CdrMessage.readString.run msg).2
  | .readString255 => (CdrMessage.readString255.run msg).2
  | .readPropertySeq n => ((CdrMessage.readPropertySeq n.toNat).run msg).2
  | .readBinaryPropertySeq n => ((CdrMessage.readBinaryPropertySeq n.toNat).run msg).2
  | .readDataHolderSeq => (CdrMessage.readDataHolderSeq.run msg).2
  | .readParticipantGenericMessage => (CdrMessage.readParticipantGenericMessage.run msg).2

def accessesOf (msg : CdrMessage) (calls : List Call) : List Access :=
  (calls.foldl Call.run { msg with accesses := [] }).accesses

def Call.Fits (msg : CdrMessage) : Call → Prop
  | .readData _ n => SumFits n.toNat msg
  | .readOctetVector => OctetVectorFits msg
  | .readString => StringFits msg
  | .readString255 => String255Fits msg
  | .readPropertySeq n => PropertySeqFits n.toNat msg
  | .readBinaryPropertySeq n => BinaryPropertySeqFits n.toNat msg
  | .readDataHolderSeq => DataHolderSeqFits msg
  | .readParticipantGenericMessage => ParticipantGenericMessageFits msg

lemma exact_call {msg : CdrMessage} (hlen : msg.length < 2 ^ 32) (hpos : msg.pos < 2 ^ 32)
    (call : Call) : ∃ as, Extends msg (call.run msg) as ∧
      ((∀ a ∈ as, a.InBounds msg.length) ↔ call.Fits msg) := by
  have hof : ∀ {α : Type} {m : Reader α} {F : CdrMessage → Prop}, Exact m F → ∃ as,
      Extends msg (m.run msg).2 as ∧ ((∀ a ∈ as, a.InBounds msg.length) ↔ F msg) := by
    intro α m F h
    obtain ⟨as, hadds, hiff⟩ := h msg hlen hpos
    exact ⟨as, hadds, hiff trivial⟩
  cases call with
  | readData dest n => exact hof (exact_readData dest n.toNat_lt)
  | readOctetVector => exact hof exact_readOctetVector
  | readString => exact hof exact_readString
  | readString255 => exact hof exact_readString255
  | readPropertySeq n => exact hof (exact_readPropertySeq n.toNat)
  | readBinaryPropertySeq n => exact hof (exact_readBinaryPropertySeq n.toNat)
  | readDataHolderSeq => exact hof exact_readDataHolderSeq
  | readParticipantGenericMessage => exact hof exact_readParticipantGenericMessage

lemma exact_calls (msg : CdrMessage) (hlen : msg.length < 2 ^ 32) (hpos : msg.pos < 2 ^ 32)
    (calls : List Call) : ∃ as, Extends msg (calls.foldl Call.run msg) as ∧
      ((∀ a ∈ as, a.InBounds msg.length) ↔ RunsWith Call.run Call.Fits msg calls) := by
  induction calls generalizing msg with
  | nil => exact ⟨[], ⟨rfl, hpos, by simp⟩, by simp [RunsWith]⟩
  | cons call calls ih =>
    obtain ⟨as, hadds, hiff⟩ := exact_call hlen hpos call
    obtain ⟨bs, hadds', hiff'⟩ := ih _ (hadds.length_eq ▸ hlen) hadds.pos_lt
    rw [hadds.length_eq] at hiff'
    refine ⟨as ++ bs, hadds.trans hadds', ?_⟩
    rw [forall_mem_append, hiff, hiff', RunsWith]

def messageOf (bytes : List UInt8) : CdrMessage where
  buffer i := bytes.getD i 255
  pos := 0
  maxSize := bytes.length
  length := bytes.length
  msgEndian := .littleend
  defaultEndian := .littleend
  accesses := []

/-- One property, whose name is `A` and whose value is empty, and two octets. -/
def sampleProperty : CdrMessage := messageOf
  [1, 0, 0, 0, 2, 0, 0, 0, 65, 0, 0, 0, 1, 0, 0, 0, 0, 0, 0, 0, 2, 0, 0, 0, 7, 7, 0, 0]

def wrappingString : CdrMessage := messageOf [252, 255, 255, 255, 65, 65, 65, 0]

def wrappingCount : CdrMessage := messageOf [0, 0, 0, 16, 0, 0, 0, 0]

def openString : CdrMessage := messageOf [4, 0, 0, 0, 65, 65, 65, 65]

def missingOctets : CdrMessage := messageOf [255, 255, 255, 0, 7, 7, 7, 7]

end CdrMessage

end EasyDds.Rtps

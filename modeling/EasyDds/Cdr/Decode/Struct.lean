import EasyDds.Cdr.Decode.Count

/-!
The loops of type decoding. What they need to know about the functor is kept apart from how a
structure provides it: the functor reads one layout after the other, called with positions
or with the identifiers that the headers name.
-/

namespace EasyDds.Cdr

open Layout List

open Prog

variable {P : Profile} {e : EncodingAlgorithmFlag} {φ : Phase} {σ : Type}

/-- A step over the piece `p` that may change `next_member_id_`. -/
def Roams (P : Profile) (p : Piece) (s s' : Cdr) : Prop :=
  ∀ m, Tracks P p { s with nextMemberId := m } { s' with nextMemberId := m }

variable {s s' : Cdr} {p q r : Piece}

lemma Ready.labels (h : Ready P s) (m : MemberId) (e : EncodingAlgorithmFlag) :
    Ready P { s with nextMemberId := m, currentEncoding := e } :=
  { h with }

lemma Tracks.relabel (h : Tracks P p s s') (m : MemberId) (e : EncodingAlgorithmFlag) :
    Tracks P p { s with nextMemberId := m, currentEncoding := e }
      { s' with nextMemberId := m, currentEncoding := e } :=
  { h with ready := h.ready.labels m e, encoding := rfl, nextMemberId := rfl }

lemma Facing.relabel (h : Facing P e φ p s) (m : MemberId) (e' : EncodingAlgorithmFlag) :
    Facing P e' φ p { s with nextMemberId := m, currentEncoding := e' } :=
  { h with ready := h.ready.labels m e', encoding := rfl }

lemma Tracks.roams (h : Tracks P p s s') : Roams P p s s' :=
  fun m => { h with ready := h.ready.labels m _, nextMemberId := rfl }

lemma Roams.trans {s'' : Cdr} (hp : Roams P p s s') (hq : Roams P q s' s'')
    (hcells : r.cells = p.cells ++ q.cells) (hnext : r.next = q.next)
    (hpads : r.pads = p.pads ++ q.pads) : Roams P r s s'' :=
  fun m => (hp m).trans (hq m) hcells hnext hpads

lemma Facing.behind (h : Facing P e φ r s) (hcells : r.cells = p.cells ++ q.cells)
    (ht : Roams P p s s') : Facing P e p.next q s' := by
  have hlabel : Facing P e φ r { s with nextMemberId := s'.nextMemberId } :=
    { h with ready := h.ready.labels _ _ }
  exact hlabel.right hcells (ht s'.nextMemberId)

/-- The labels that a type changed are put back behind it. -/
theorem Roams.restore {m : MemberId}
    (h : Roams P p { s with nextMemberId := m, currentEncoding := e } s') : Tracks P p s
      { s' with nextMemberId := s.nextMemberId, currentEncoding := s.currentEncoding } :=
  (h m).relabel s.nextMemberId s.currentEncoding

lemma Roams.stay (h : Roams P p s s') : Roams P p s (s'.makeAlignment 0) :=
  fun m => { h m with ready := { (h m).ready with last_le := Nat.zero_le _ } }

section InOrder

variable (P e) (functor : MemberFunctor σ)

/-- Called with `n` positions from `i` on, the functor reads the parts of a layout in order
and turns the object into another; the position behind them is unknown to it. -/
inductive InOrder : Nat → Nat → Phase → Layout → σ → σ → Prop
  | done {i : Nat} {φ : Phase} {x : σ}
      (hunknown : ∀ s, (functor (.ofNat i false) x).run s = (.ok (false, x), s)) :
      InOrder 0 i φ empty x x
  | next {n i : Nat} {φ : Phase} {L M : Layout} {x x1 x' : σ}
      (hread : ReadsAt P e (functor (.ofNat i false) x) L φ (true, x1))
      (hrest : InOrder n (i + 1) (L φ).next M x1 x')
      (hblank : (seq L M φ).cells = [] → Blank P (seq L M) ∧ x = x') :
      InOrder (n + 1) i φ (seq L M) x x'

variable {P e functor}

lemma deserializeInOrder_run (condition : Cdr → Bool) {n i : Nat} {L : Layout}
    {x x' : σ} (h : InOrder P e functor n i φ L x x') :
    ∀ (fuel : Nat) (s : Cdr), n < fuel → i + n < 2 ^ 32 → Facing P e φ (L φ) s →
      s.nextMemberId = .ofNat i false →
      (∀ s' : Cdr, s'.size = s.size → s.offset ≤ s'.offset →
        s'.offset < s.offset + (L φ).cells.length → condition s' = true) →
      ∃ s', (deserializeInOrder fuel functor condition x).run s = (.ok x', s') ∧
        Roams P (L φ) s s' := by
  induction h with
  | @done i φ x hunknown =>
    intro fuel s hfuel _ hs hnext _
    obtain ⟨fuel, rfl⟩ := Nat.exists_eq_add_of_lt hfuel
    rw [Nat.zero_add]
    refine ⟨s, loop_of_inr ?_ fuel, (Tracks.refl hs.ready rfl hs.pos rfl).roams⟩
    rw [deserializeNext, run_read_bind]
    split
    · rw [hnext, bind_of_ok (hunknown s)]
      rfl
    · rfl
  | @next n i φ L M x x1 x' hread _ hblank ih =>
    intro fuel s hfuel hlt hs hnext hcondition
    obtain ⟨k, rfl⟩ := Nat.exists_eq_add_of_lt hfuel
    by_cases hc : condition s = true
    · obtain ⟨s1, hrun, ht⟩ := hread s (hs.left rfl)
      set s2 : Cdr := { s1 with nextMemberId := .ofNat (i + 1) false } with hs2
      have hround : (deserializeNext functor condition x).run s = (.ok (.inl x1), s2) := by
        rw [deserializeNext, run_read_bind, if_pos hc, hnext, bind_of_ok hrun]
        simp only [if_true, incrementNextMemberId, run_modify_bind, run_pure, ht.nextMemberId,
          hnext, MemberId.ofNat, Nat.mod_eq_of_lt (show i < 2 ^ 32 by omega), hs2]
      have ht2 : Roams P (L φ) s s2 := ht.roams
      have hlen : (seq L M φ).cells.length =
          (L φ).cells.length + (M (L φ).next).cells.length := length_append
      have hoffset : s2.offset = s.offset + (L φ).cells.length := ht.offset
      have hsize : s2.size = s.size := ht.size
      obtain ⟨s', hrun', ht'⟩ := ih (n + 1 + k) s2 (by omega) (by omega)
        (hs.behind rfl ht2) rfl fun s' hsize' hle hlt' =>
          hcondition s' (by rw [hsize', hsize]) (by omega) (by omega)
      exact ⟨s', by rw [← hrun']; exact loop_of_inl hround _, ht2.trans ht' rfl rfl rfl⟩
    · have hnil : (seq L M φ).cells = [] := by
        by_contra hne
        have hpos := length_pos_of_ne_nil hne
        exact hc (hcondition s rfl le_rfl (by omega))
      obtain ⟨hnothing, rfl⟩ := hblank hnil
      refine ⟨s, loop_of_inr ?_ _, (Tracks.blank hnothing hs).roams⟩
      rw [deserializeNext, run_read_bind, if_neg hc]
      rfl

end InOrder

section Named

inductive Rounds (P : Profile) (step : Phase → Layout → σ → σ → Prop) :
    Nat → Phase → Layout → σ → σ → Prop
  | done {φ : Phase} {x : σ} : Rounds P step 0 φ empty x x
  | skip {n : Nat} {φ : Phase} {L M : Layout} {x x' : σ} (hblank : Blank P L)
      (hrest : Rounds P step n (L φ).next M x x') : Rounds P step (n + 1) φ (seq L M) x x'
  | next {n : Nat} {φ : Phase} {L M : Layout} {x x1 x' : σ} (hstep : step φ L x x1)
      (hrest : Rounds P step n (L φ).next M x1 x') : Rounds P step (n + 1) φ (seq L M) x x'

variable (P e) (functor : MemberFunctor σ)

def Member2 (φ : Phase) (L : Layout) (x x' : σ) : Prop :=
  ∃ m a, L = member2 P m a ∧ m.id < 0x10000000 ∧
    ((a (advance P φ (padTo 4 φ.pos + 4))).cells.length < 2 ^ 32 →
      Piece.Counted P (a (advance P φ (padTo 4 φ.pos + 4)))) ∧
    ReadsAt P e (functor m x) a (advance P φ (padTo 4 φ.pos + 4)) (true, x')

def Member1 (φ : Phase) (L : Layout) (x x' : σ) : Prop :=
  ∃ m a, L = member1 P m a ∧ ReadsAt P e (functor m.memberId x) a { φ with pos := 0 } (true, x')

variable {P e functor}

lemma Piece.Counted.length_pos (h : p.Counted P) : 0 < p.cells.length := by
  unfold Piece.Counted at h
  split at h
  · exact h
  · obtain ⟨_, _, _, hlen⟩ := h
    omega

variable {L : Layout} {x x' : σ} {n : Nat} {s : Cdr}

/-- A member known to the functor is read and not skipped. -/
theorem deserializeOrSkip_run (h : ReadsAt P e (functor s.nextMemberId x) L φ (true, x'))
    (hs : Facing P e φ (L φ) s) :
    ∃ s', (deserializeOrSkip functor n x).run s = (.ok x', s') ∧ Tracks P (L φ) s s' := by
  obtain ⟨s', hrun, ht⟩ := h s hs
  refine ⟨s', ?_, ht⟩
  rw [deserializeOrSkip, run_read_bind, bind_of_ok hrun]
  rfl

lemma xcdr2DeserializeMember_run (hv : P.version = .xcdrV2) {st : State} {dheader : Nat}
    (h : Member2 P e functor φ L x x') (hs : Facing P e φ (L φ) s) (horigin : st.origin = s.origin)
    (hle : st.offset ≤ s.offset) (hend : s.offset + (L φ).cells.length ≤ st.offset + dheader)
    (hd : dheader < 2 ^ 32) : ∃ st' s', (xcdr2DeserializeMember functor dheader (x, st)).run s =
        (.ok (.inl (x', st')), s') ∧ st'.offset = st.offset ∧ st'.origin = st.origin ∧
      Roams P (L φ) s s' := by
  obtain ⟨m, a, rfl, hid, hcounted, hread⟩ := h
  set ψ := advance P φ (padTo 4 φ.pos + 4) with hψ
  have hcounted := hcounted (by
    have hsmall := hs.small
    simp only [member2, length_append, ← hψ] at hsmall
    omega)
  obtain ⟨st', s1, hrun1, hheader⟩ := xcdr2DeserializeMemberHeader_run st hv hid hs hcounted
  have hpos := hcounted.length_pos
  obtain ⟨s2, hrun2, ht2⟩ := deserializeOrSkip_run (n := st'.memberSize)
    (s := { s1 with nextMemberId := m }) hread
    { hheader.facing with ready := hheader.facing.ready.labels _ _ }
  have hlen : 0 < (member2 P m a φ).cells.length := by
    simp only [member2, length_append, ← hψ]
    omega
  have hsmall : (a ψ).cells.length < 2 ^ 32 := hheader.facing.small
  have hsize : st'.memberSize = (a ψ).cells.length := hheader.memberSize
  have hconsumed := hheader.consumed
  obtain ⟨k, hk, hk8⟩ : ∃ k, (if st'.headerSerialized = .shortHeader then 4 else 8) = k ∧
      k ≤ 8 := ⟨_, rfl, by split <;> omega⟩
  rw [hk] at hconsumed
  have hoffset : s2.offset = s1.offset + (a ψ).cells.length := ht2.offset
  have hpad : padTo 4 φ.pos < 4 := Nat.mod_lt _ (by decide)
  have hbefore : iteratorDiff s.offset st.offset = s.offset - st.offset :=
    iteratorDiff_eq hle (by omega)
  have halign : alignmentOnState st'.origin s.offset 4 = padTo 4 φ.pos := by
    rw [hheader.origin, horigin, alignmentOnState_eq hs.ready.origin_le (by omega),
      ← padTo_mod P.isAlign_four.2, ← hs.pos]
    rfl
  refine ⟨st', s2, ?_, hheader.offset, hheader.origin, fun m' => ?_⟩
  · rw [xcdr2DeserializeMember, run_read_bind]
    simp only [hbefore]
    rw [if_neg (by omega), if_neg (by omega), bind_of_ok hrun1]
    simp only [setNextMemberId, run_modify_bind]
    rw [bind_of_ok hrun2, run_read_bind, halign, hk, hsize,
      iteratorDiff_eq (a := s2.offset) (by omega) (by omega),
      iteratorDiff_eq (b := padTo 4 φ.pos + k) (by omega) (by omega), if_neg (by omega)]
    rfl
  · have hback : Tracks P (a ψ) { s1 with nextMemberId := s1.nextMemberId }
        { s2 with nextMemberId := s1.nextMemberId } := ht2.roams s1.nextMemberId
    exact (hheader.tracks _ hback).roams m'

lemma xcdr2Members_run (hv : P.version = .xcdrV2) {dheader : Nat}
    (hd : dheader < 2 ^ 32) (h : Rounds P (Member2 P e functor) n φ L x x') :
    ∀ (fuel : Nat) (s : Cdr) (st : State), n < fuel → Facing P e φ (L φ) s →
      st.origin = s.origin → st.offset ≤ s.offset →
      s.offset + (L φ).cells.length = st.offset + dheader →
      ∃ s', (loop .outOfFuel (xcdr2DeserializeMember functor dheader) fuel (x, st)).run s =
          (.ok x', s') ∧ Roams P (L φ) s s' := by
  induction h with
  | @done φ x =>
    intro fuel s st hfuel hs _ hle hend
    obtain ⟨fuel, rfl⟩ := Nat.exists_eq_add_of_lt hfuel
    rw [Nat.zero_add]
    have hdone : iteratorDiff s.offset st.offset = dheader := by
      simp only [empty, length_nil] at hend
      rw [iteratorDiff_eq hle (by omega)]
      omega
    refine ⟨s, loop_of_inr ?_ fuel, (Tracks.refl hs.ready rfl hs.pos rfl).roams⟩
    rw [xcdr2DeserializeMember, run_read_bind, if_pos hdone]
    rfl
  | @skip n φ L M x x' hblank _ ih =>
    intro fuel s st hfuel hs horigin hle hend
    have ht : Roams P (L φ) s s := (Tracks.blank hblank (hs.left rfl)).roams
    have hnil := (hblank φ hs.pos_lt).1
    obtain ⟨s', hrun, ht'⟩ := ih fuel s st (by omega) (hs.behind rfl ht) horigin hle
      (by simpa [seq, hnil] using hend)
    exact ⟨s', hrun, ht.trans ht' rfl rfl rfl⟩
  | @next n φ L M x x1 x' hstep _ ih =>
    intro fuel s st hfuel hs horigin hle hend
    obtain ⟨k, rfl⟩ := Nat.exists_eq_add_of_lt hfuel
    have hlen : (seq L M φ).cells.length =
        (L φ).cells.length + (M (L φ).next).cells.length := length_append
    obtain ⟨st1, s1, hrun1, hoffset, horigin1, ht1⟩ :=
      xcdr2DeserializeMember_run hv hstep (hs.left rfl) horigin hle (by omega) hd
    have hmoved : s1.offset = s.offset + (L φ).cells.length := (ht1 s.nextMemberId).offset
    obtain ⟨s', hrun, ht'⟩ := ih (n + 1 + k) s1 st1 (by omega) (hs.behind rfl ht1)
      (by rw [horigin1, horigin]; exact ((ht1 s.nextMemberId).origin_eq hv).symm)
      (by omega) (by omega)
    exact ⟨s', by rw [← hrun]; exact loop_of_inl hrun1 _, ht1.trans ht' rfl rfl rfl⟩

/-- Behind an XCDRv1 header the content starts its own alignment: the origin moves to the end of the
header, so the phase is that of position zero. -/
theorem Facing.content1 {header : List UInt8} {s1 : Cdr} (hs : Facing P e φ r s)
    (hcells : r.cells = (aligned P 4 header φ).cells ++ q.cells)
    (h : HeaderRead1 P (padTo 4 φ.pos + header.length) s s1) :
    Facing P e { φ with pos := 0 } q s1 := by
  have hmatch := hs.cells
  have hfits := hs.fits
  have hsmall := hs.small
  have hlen : (aligned P 4 header φ).cells.length = padTo 4 φ.pos + header.length := by
    simp [aligned]
  rw [hcells, length_append, hlen] at hfits hsmall
  rw [hcells, Mem.matches_append, hlen] at hmatch
  refine ⟨h.ready, h.encoding.trans hs.encoding, ?_, ?_, ?_, by omega⟩
  · simp [phase, h.origin]
  · rw [h.mem, h.offset]
    exact hmatch.2
  · rw [h.offset, h.size]
    omega

lemma HeaderRead1.tracks (hv : P.version = .xcdrV1) {header : List UInt8}
    {s1 s2 : Cdr} (h : HeaderRead1 P (padTo 4 φ.pos + header.length) s s1)
    (hcells : r.cells = (aligned P 4 header φ).cells ++ q.cells) (hnext : r.next = q.next)
    (hpads : r.pads = q.pads) (ht : Tracks P q s1 s2) : Tracks P r s s2 where
  ready := ht.ready
  offset := by
    rw [ht.offset, h.offset, hcells]
    simp only [aligned, length_append, length_replicate, length_map]
    omega
  pos := by rw [ht.pos, hnext]
  mem := ht.mem.trans h.mem
  size := ht.size.trans h.size
  encoding := ht.encoding.trans h.encoding
  nextMemberId := ht.nextMemberId.trans h.nextMemberId
  origin_eq := fun hv' => absurd (hv.symm.trans hv') (by decide)
  pads := fun hv => by rw [ht.pads hv, hpads, h.pads hv]

lemma Layout.member1_cells (m : MemberInfo) (a : Layout) (φ : Phase) : (member1 P m a φ).cells =
      (aligned P 4 (header1 P m (endsShort m (a { φ with pos := 0 }).cells.length)
        (a { φ with pos := 0 }).cells.length) φ).cells ++ (a { φ with pos := 0 }).cells := rfl

/-- The header of a member is read with the size of its content. -/
theorem header1_run {m : MemberInfo} {a : Layout} (memberId : MemberId) (st : State)
    (hs : Facing P e φ (member1 P m a φ) s) :
    ∃ st' s', (xcdr1DeserializeMemberHeader memberId st).run s =
        (.ok (true, m.memberId, st'), s') ∧
      st'.memberSize = (a { φ with pos := 0 }).cells.length ∧
      HeaderRead1 P (padTo 4 φ.pos + (header1 P m (endsShort m (a { φ with pos := 0 }).cells.length)
        (a { φ with pos := 0 }).cells.length).length) s s' := by
  have hsmall := hs.small
  rw [member1_cells, length_append] at hsmall
  refine xcdr1DeserializeMemberHeader_run memberId st (fun hshort => ?_) (by omega)
    (hs.left (member1_cells m a φ))
  simp only [endsShort, decide_eq_true_eq] at hshort
  exact ⟨hshort.2.1, hshort.1⟩

lemma xcdr1DeserializeMember_run (hv : P.version = .xcdrV1) (st : State)
    (h : Member1 P e functor φ L x x') (hs : Facing P e φ (L φ) s) :
    ∃ st' s', (xcdr1DeserializeMember functor (x, st)).run s = (.ok (.inl (x', st')), s') ∧
      Roams P (L φ) s s' := by
  obtain ⟨m, a, rfl, hread⟩ := h
  obtain ⟨st', s1, hrun1, hsize, hheader⟩ := header1_run s.nextMemberId st hs
  have hs1 := hs.content1 (member1_cells m a φ) hheader
  obtain ⟨s2, hrun2, ht2⟩ := deserializeOrSkip_run (n := st'.memberSize)
    (s := { s1 with nextMemberId := m.memberId }) hread
    { hs1 with ready := hs1.ready.labels _ _ }
  have hoffset : s2.offset = s1.offset + (a { φ with pos := 0 }).cells.length := ht2.offset
  have hsmall := hs1.small
  refine ⟨st', s2, ?_, fun m' => ?_⟩
  · rw [xcdr1DeserializeMember, run_read_bind, bind_of_ok hrun1]
    simp only [setNextMemberId, run_modify_bind, if_true, run_read_bind]
    rw [bind_of_ok hrun2, run_read_bind, hsize,
      iteratorDiff_eq (by omega) (by omega), if_neg (by omega)]
    rfl
  · have hback : Tracks P (a { φ with pos := 0 }) { s1 with nextMemberId := s1.nextMemberId }
        { s2 with nextMemberId := s1.nextMemberId } := ht2.roams s1.nextMemberId
    exact (hheader.tracks hv (member1_cells m a φ) rfl rfl hback).roams m'

lemma xcdr1Members_run (hv : P.version = .xcdrV1) (h : Rounds P (Member1 P e functor) n φ L x x') :
    ∀ (fuel : Nat) (s : Cdr) (st : State), n < fuel →
      Facing P e φ (seq L (sentinel P) φ) s →
      ∃ s', (loop .outOfFuel (xcdr1DeserializeMember functor) fuel (x, st)).run s =
          (.ok x', s') ∧ Roams P (seq L (sentinel P) φ) s s' := by
  induction h with
  | @done φ x =>
    intro fuel s st hfuel hs
    obtain ⟨fuel, rfl⟩ := Nat.exists_eq_add_of_lt hfuel
    rw [Nat.zero_add]
    obtain ⟨m, st', s1, hrun, ht⟩ := sentinel_reads s.nextMemberId st
      (hs.congr (q := sentinel P φ) rfl rfl)
    have ht' : Tracks P (seq empty (sentinel P) φ) s s1 :=
      ht.congr rfl rfl fun _ => rfl
    refine ⟨{ s1 with nextMemberId := m }, loop_of_inr ?_ fuel, ht'.roams⟩
    rw [xcdr1DeserializeMember, run_read_bind, bind_of_ok hrun]
    rfl
  | @skip n φ L M x x' hblank _ ih =>
    intro fuel s st hfuel hs
    rw [seq_assoc] at hs ⊢
    have ht : Roams P (L φ) s s := (Tracks.blank hblank (hs.left rfl)).roams
    obtain ⟨s', hrun, ht'⟩ := ih fuel s st (by omega) (hs.behind rfl ht)
    exact ⟨s', hrun, ht.trans ht' rfl rfl rfl⟩
  | @next n φ L M x x1 x' hstep _ ih =>
    intro fuel s st hfuel hs
    rw [seq_assoc] at hs ⊢
    obtain ⟨k, rfl⟩ := Nat.exists_eq_add_of_lt hfuel
    obtain ⟨st1, s1, hrun1, ht1⟩ := xcdr1DeserializeMember_run hv st hstep (hs.left rfl)
    obtain ⟨s', hrun, ht'⟩ := ih (n + 1 + k) s1 st1 (by omega) (hs.behind rfl ht1)
    exact ⟨s', by rw [← hrun]; exact loop_of_inl hrun1 _, ht1.trans ht' rfl rfl rfl⟩

end Named

section Types

variable {functor : MemberFunctor σ} {body : Layout} {x x' : σ} {n fuel : Nat}

/-- Members in order up to the end of the buffer. -/
theorem deserializeUntilEnd_run (h : InOrder P e functor n 0 φ body x x') (hfuel : n < fuel)
    (hn : n < 2 ^ 32) (hs : Facing P e φ (body φ) s) (hnext : s.nextMemberId = .ofNat 0 false) :
    ∃ s', (deserializeInOrder fuel functor (fun s => s.offset != s.size) x).run s =
        (.ok x', s') ∧ Roams P (body φ) s s' := by
  refine deserializeInOrder_run _ h fuel s hfuel (by omega) hs hnext fun s' hsize _ hlt => ?_
  have hfits := hs.fits
  simp only [bne_iff_ne, ne_eq]
  omega

lemma xcdr1DeserializeType_reads {enc : EncodingAlgorithmFlag} (henc : enc ≠ .plCdr)
    (h : InOrder P enc functor n 0 φ body x x') (hfuel : n < fuel) (hn : n < 2 ^ 32) :
    ReadsAt P e (xcdr1DeserializeType fuel functor enc x) body φ x' := by
  intro s hs
  obtain ⟨s', hrun, ht⟩ := deserializeUntilEnd_run h hfuel hn (hs.relabel (.ofNat 0 false) enc) rfl
  refine ⟨_, ?_, ht.restore⟩
  simp only [xcdr1DeserializeType, run_read_bind, setCurrentEncoding, setNextMemberId,
    run_modify_bind, if_neg henc]
  rw [bind_of_ok hrun]
  rfl

lemma xcdr1DeserializeType_reads_pl (hv : P.version = .xcdrV1)
    (h : Rounds P (Member1 P .plCdr functor) n φ body x x') (hfuel : n < fuel) :
    ReadsAt P e (xcdr1DeserializeType fuel functor .plCdr x)
      (seq body (sentinel P)) φ x' := by
  intro s hs
  obtain ⟨s', hrun, ht⟩ := xcdr1Members_run hv h fuel _ s.getState hfuel
    (hs.relabel s.nextMemberId .plCdr)
  refine ⟨_, ?_, ht.restore⟩
  simp only [xcdr1DeserializeType, run_read_bind, setCurrentEncoding, setNextMemberId,
    run_modify_bind, if_true]
  rw [bind_of_ok hrun]
  rfl

lemma xcdr2DeserializeType_reads (h : InOrder P .plainCdr2 functor n 0
      { φ with flag := .noSerializedMemberSize } body x x') (hfuel : n < fuel)
    (hn : n < 2 ^ 32) :
    ReadsAt P e (xcdr2DeserializeType fuel functor .plainCdr2 x)
      (fromFlag .noSerializedMemberSize body) φ x' := by
  intro s hs
  obtain ⟨s', hrun, ht⟩ := deserializeUntilEnd_run h hfuel hn
    ((hs.congr (ψ := { φ with flag := .noSerializedMemberSize }) rfl rfl).relabel
      (.ofNat 0 false) .plainCdr2) rfl
  refine ⟨_, ?_, ht.restore⟩
  simp only [xcdr2DeserializeType, ne_eq, not_true_eq_false, if_false, run_read_bind,
    setCurrentEncoding, setNextMemberId, run_modify_bind]
  rw [bind_of_ok hrun]
  rfl

lemma xcdr2DeserializeType_reads_pl (hv : P.version = .xcdrV2)
    (h : ∀ ψ, ψ.flag = .noSerializedMemberSize →
      Rounds P (Member2 P .plCdr2 functor) n ψ body x x') (hfuel : n < fuel) :
    ReadsAt P e (xcdr2DeserializeType fuel functor .plCdr2 x)
      (delimited P (fromFlag .noSerializedMemberSize body)) φ x' := by
  intro s hs
  obtain ⟨dheader, ψ, s1, hrun1, hd, hlt, -, -, hs1, -, htracks⟩ := delimited_reads hv hs
  obtain ⟨s', hrun, ht⟩ := xcdr2Members_run hv hlt (h { ψ with flag := _ } rfl) fuel _ s1.getState
    hfuel ((hs1.congr (ψ := { ψ with flag := .noSerializedMemberSize }) rfl rfl).relabel
      s1.nextMemberId .plCdr2) rfl le_rfl (by rw [hd]; rfl)
  refine ⟨_, ?_, htracks _ ht.restore⟩
  simp only [xcdr2DeserializeType, ne_eq, reduceCtorEq, not_false_eq_true, if_true]
  rw [bind_of_ok hrun1]
  simp only [run_read_bind, setCurrentEncoding, setNextMemberId, run_modify_bind]
  rw [bind_of_ok hrun]
  rfl

lemma xcdr2DeserializeType_reads_delimit (hv : P.version = .xcdrV2)
    (h : ∀ ψ, ψ.flag = .noSerializedMemberSize →
      InOrder P .delimitCdr2 functor n 0 ψ body x x') (hfuel : n < fuel) (hn : n < 2 ^ 32) :
    ReadsAt P e (xcdr2DeserializeType fuel functor .delimitCdr2 x)
      (delimited P (fromFlag .noSerializedMemberSize body)) φ x' := by
  intro s hs
  obtain ⟨dheader, ψ, s1, hrun1, hd, hlt, -, -, hs1, -, htracks⟩ := delimited_reads hv hs
  have hcells : dheader = (body { ψ with flag := .noSerializedMemberSize }).cells.length := hd
  obtain ⟨s', hrun, ht⟩ := deserializeInOrder_run
    (fun s => iteratorDiff s.offset s1.offset < dheader) (h { ψ with flag := _ } rfl) fuel _ hfuel
    (by omega) ((hs1.congr (ψ := { ψ with flag := .noSerializedMemberSize }) rfl rfl).relabel
      (.ofNat 0 false) .delimitCdr2) rfl (fun s' _ hle hlt' => by
        have hle : s1.offset ≤ s'.offset := hle
        have hlt' : s'.offset < s1.offset +
          (body { ψ with flag := .noSerializedMemberSize }).cells.length := hlt'
        rw [decide_eq_true_eq, iteratorDiff_eq hle (by omega)]
        omega)
  have hmoved : s'.offset = s1.offset + dheader := by
    rw [hcells]
    exact (ht s1.nextMemberId).offset
  have hjump : iteratorDiff dheader (iteratorDiff s'.offset s1.offset) = 0 := by
    rw [iteratorDiff_eq (a := s'.offset) (by omega) (by omega),
      iteratorDiff_eq (by omega) (by omega)]
    omega
  refine ⟨_, ?_, htracks _ ht.stay.restore⟩
  simp only [xcdr2DeserializeType, ne_eq, reduceCtorEq, not_false_eq_true, if_true]
  rw [bind_of_ok hrun1]
  simp only [run_read_bind, setCurrentEncoding, setNextMemberId, run_modify_bind,
    if_false, getState_offset]
  rw [bind_of_ok hrun, run_read_bind, hjump,
    bind_of_ok (jump_run (ht s'.nextMemberId).ready.offset_le)]
  rfl

end Types

end EasyDds.Cdr

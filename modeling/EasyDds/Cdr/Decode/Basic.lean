import EasyDds.Cdr.Emit.Value

/-!
What it means for a decoder to read a layout. A decoder that stands in front of the cells of
a layout, in the phase the layout starts from, returns a value and stands behind them.
-/

namespace EasyDds.Cdr

open Layout List

open Prog

/-- The step from `s` to `s'` moved over the piece `p` at the offset of `s`. -/
structure Tracks (P : Profile) (p : Piece) (s s' : Cdr) : Prop where
  ready : Ready P s'
  offset : s'.offset = s.offset + p.cells.length
  pos : (phase P s').pos = p.next.pos
  mem : s'.mem = s.mem
  size : s'.size = s.size
  encoding : s'.currentEncoding = s.currentEncoding
  nextMemberId : s'.nextMemberId = s.nextMemberId
  origin_eq : P.version = .xcdrV2 → s'.origin = s.origin
  /-- In XCDRv1 the primitives are read with the paddings they were written with. -/
  pads : P.version = .xcdrV1 → notedPads s' = p.pads.reverse ++ notedPads s

structure Facing (P : Profile) (e : EncodingAlgorithmFlag) (φ : Phase) (p : Piece) (s : Cdr) :
    Prop where
  ready : Ready P s
  encoding : s.currentEncoding = e
  pos : (phase P s).pos = φ.pos
  cells : Mem.Matches s.mem s.offset p.cells
  fits : s.offset + p.cells.length ≤ s.size
  small : p.cells.length < 2 ^ 32

/-- In front of the layout `L` in the phase `φ`, `d` returns `r` and moves behind it. -/
def ReadsAt (P : Profile) (e : EncodingAlgorithmFlag) {α : Type} (d : CdrM α) (L : Layout)
    (φ : Phase) (r : α) : Prop :=
  ∀ s, Facing P e φ (L φ) s → ∃ s', d.run s = (.ok r, s') ∧ Tracks P (L φ) s s'

variable {P : Profile} {e : EncodingAlgorithmFlag} {φ : Phase} {α β : Type}

variable {p q r : Piece} {s s' : Cdr} {d : CdrM α} {L M : Layout} {a : α}

lemma Facing.left (h : Facing P e φ r s) (hcells : r.cells = p.cells ++ q.cells) :
    Facing P e φ p s := by
  have hmatch := h.cells
  have hfits := h.fits
  have hsmall := h.small
  rw [hcells, length_append] at hfits hsmall
  rw [hcells, Mem.matches_append] at hmatch
  exact ⟨h.ready, h.encoding, h.pos, hmatch.1, by omega, by omega⟩

lemma Facing.right (h : Facing P e φ r s) (hcells : r.cells = p.cells ++ q.cells)
    (ht : Tracks P p s s') : Facing P e p.next q s' := by
  have hmatch := h.cells
  have hfits := h.fits
  have hsmall := h.small
  rw [hcells, length_append] at hfits hsmall
  rw [hcells, Mem.matches_append] at hmatch
  refine ⟨ht.ready, ht.encoding.trans h.encoding, ht.pos, ?_, ?_, by omega⟩
  · rw [ht.mem, ht.offset]
    exact hmatch.2
  · rw [ht.offset, ht.size]
    omega

lemma Tracks.trans {s'' : Cdr} (hp : Tracks P p s s') (hq : Tracks P q s' s'')
    (hcells : r.cells = p.cells ++ q.cells) (hnext : r.next = q.next)
    (hpads : r.pads = p.pads ++ q.pads) : Tracks P r s s'' where
  ready := hq.ready
  offset := by rw [hq.offset, hp.offset, hcells, length_append, Nat.add_assoc]
  pos := by rw [hq.pos, hnext]
  mem := hq.mem.trans hp.mem
  size := hq.size.trans hp.size
  encoding := hq.encoding.trans hp.encoding
  nextMemberId := hq.nextMemberId.trans hp.nextMemberId
  origin_eq := fun hv => (hq.origin_eq hv).trans (hp.origin_eq hv)
  pads := fun hv => by rw [hq.pads hv, hp.pads hv, hpads, reverse_append, append_assoc]

lemma Tracks.refl (hs : Ready P s) (hcells : p.cells = []) (hpos : (phase P s).pos = p.next.pos)
    (hpads : p.pads = []) : Tracks P p s s :=
  ⟨hs, by simp [hcells], hpos, rfl, rfl, rfl, rfl, fun _ => rfl, fun _ => by simp [hpads]⟩

/-- The same piece up to the flag it leaves, which a decoder does not see. -/
theorem Tracks.congr (h : Tracks P p s s') (hcells : q.cells = p.cells)
    (hpos : q.next.pos = p.next.pos) (hpads : P.version = .xcdrV1 → q.pads = p.pads) :
    Tracks P q s s' :=
  { h with
    offset := by rw [h.offset, hcells]
    pos := by rw [h.pos, hpos]
    pads := fun hv => by rw [h.pads hv, hpads hv] }

lemma Facing.congr {ψ : Phase} (h : Facing P e φ p s) (hcells : q.cells = p.cells)
    (hpos : ψ.pos = φ.pos) : Facing P e ψ q s :=
  ⟨h.ready, h.encoding, h.pos.trans hpos.symm, hcells ▸ h.cells, hcells ▸ h.fits, hcells ▸ h.small⟩

lemma ReadsAt.pure (a : α) : ReadsAt P e (pure a) empty φ a :=
  fun s hs => ⟨s, rfl, .refl hs.ready rfl hs.pos rfl⟩

lemma ReadsAt.bind {f : α → CdrM β} {b : β} (hd : ReadsAt P e d L φ a)
    (hf : ReadsAt P e (f a) M (L φ).next b) : ReadsAt P e (d >>= f) (seq L M) φ b := by
  intro s hs
  obtain ⟨s', hrun, ht⟩ := hd s (hs.left rfl)
  obtain ⟨s'', hrun', ht'⟩ := hf s' (hs.right rfl ht)
  exact ⟨s'', by rw [bind_of_ok hrun, hrun'], ht.trans ht' rfl rfl rfl⟩

/-- The next part of a layout, once the decoder is behind the parts before it. -/
theorem Facing.step {s1 : Cdr} (hs : Facing P e φ (seq L M φ) s) (ht : Tracks P (L φ) s s1)
    (hd : ReadsAt P e d M (L φ).next a) :
    ∃ s2, d.run s1 = (.ok a, s2) ∧ Tracks P (seq L M φ) s s2 := by
  obtain ⟨s2, hrun, ht2⟩ := hd s1 (hs.right rfl ht)
  exact ⟨s2, hrun, ht.trans ht2 rfl rfl rfl⟩

lemma ReadsAt.map (f : α → β) (hd : ReadsAt P e d L φ a) :
    ReadsAt P e (d >>= fun x => Pure.pure (f x)) L φ (f a) := by
  intro s hs
  obtain ⟨s', hrun, ht⟩ := hd s hs
  exact ⟨s', by rw [bind_of_ok hrun]; rfl, ht⟩

lemma ReadsAt.congr {d' : CdrM α} (h : ReadsAt P e d L φ a)
    (hrun : ∀ s, Ready P s → s.currentEncoding = e → d'.run s = d.run s) :
    ReadsAt P e d' L φ a := by
  intro s hs
  rw [hrun s hs.ready hs.encoding]
  exact h s hs

/-- Reading the object first gives the rest of the computation its state to use. -/
theorem ReadsAt.read {f : Cdr → CdrM α}
    (h : ∀ s, Ready P s → s.currentEncoding = e → ReadsAt P e (f s) L φ a) :
    ReadsAt P e (read >>= f) L φ a := by
  intro s hs
  exact h s hs.ready hs.encoding s hs

lemma ReadsAt.onError {r : Cdr → Cdr} (h : ReadsAt P e d L φ a) :
    ReadsAt P e (onError r d) L φ a := by
  intro s hs
  obtain ⟨s', hrun, ht⟩ := h s hs
  exact ⟨s', onError_of_ok hrun, ht⟩

lemma ReadsAt.same {ψ : Phase} (h : ReadsAt P e d L ψ a) (hpos : φ.pos = ψ.pos)
    (hcells : (M φ).cells = (L ψ).cells) (hnext : (M φ).next.pos = (L ψ).next.pos)
    (hpads : P.version = .xcdrV1 → (M φ).pads = (L ψ).pads) : ReadsAt P e d M φ a := by
  intro s hs
  obtain ⟨s', hrun, ht⟩ := h s (hs.congr hcells.symm hpos.symm)
  exact ⟨s', hrun, ht.congr hcells hnext hpads⟩

lemma ReadsAt.thenFlag (h : ReadsAt P e d L φ a) (f : SerializedMemberSizeForNextInt) :
    ReadsAt P e d (thenFlag f L) φ a :=
  h.same rfl rfl rfl fun _ => rfl

lemma ReadsAt.sequenceFlag (h : ReadsAt P e d L φ a) (f : SerializedMemberSizeForNextInt) :
    ReadsAt P e d (Layout.sequenceFlag P f L) φ a := by
  unfold Layout.sequenceFlag
  split
  · exact h.thenFlag f
  · exact h

/-- Elements one after the other; `g` gives what becomes of each. -/
theorem ReadsAt.collect {γ : Type} {f : α → CdrM β} {I : γ → Layout} {g : γ → β} :
    ∀ (xs : List α) (vs : List γ) (φ : Phase), xs.length = vs.length →
      (∀ x ∈ xs, ∀ v ∈ vs, ∀ ψ, ReadsAt P e (f x) (I v) ψ (g v)) →
      ReadsAt P e (collect f xs) (all I vs) φ (vs.map g)
  | [], [], _, _, _ => ReadsAt.pure []
  | x :: xs, v :: vs, φ, hlen, h => by
    have hhead := h x (mem_cons_self ..) v (mem_cons_self ..) φ
    have htail := ReadsAt.collect xs vs (I v φ).next (Nat.succ.inj hlen)
      fun y hy w hw => h y (mem_cons_of_mem _ hy) w (mem_cons_of_mem _ hw)
    exact hhead.bind (htail.map (g v :: ·))

end EasyDds.Cdr

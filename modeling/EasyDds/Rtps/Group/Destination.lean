import EasyDds.Lib.Run
import EasyDds.Lib.Weakest
import EasyDds.Rtps.Group.MessageGroup

/-!
Whether the submessages of a group are read for the destination they were added for. A receiver
takes the destination from the last INFO_DST of the message, while the group remembers the last
INFO_DST it wrote in any message.
-/

namespace EasyDds.Rtps

open Prog

namespace Piece

def scopeAfter (dst : GuidPrefix) : List Piece → GuidPrefix
  | [] => dst
  | infoDst guidPrefix :: rest => scopeAfter guidPrefix rest
  | submessage _ :: rest | statistics :: rest => scopeAfter dst rest

/-- A receiver reads every submessage for the destination that was requested. -/
def Scoped (dst : GuidPrefix) : List Piece → Prop
  | [] => True
  | infoDst guidPrefix :: rest => Scoped guidPrefix rest
  | submessage destination :: rest => destination = dst ∧ Scoped dst rest
  | statistics :: rest => Scoped dst rest

instance decidableScoped (dst : GuidPrefix) : (pieces : List Piece) → Decidable (Scoped dst pieces)
  | [] => inferInstanceAs (Decidable True)
  | infoDst guidPrefix :: rest => decidableScoped guidPrefix rest
  | submessage destination :: rest =>
    have := decidableScoped dst rest
    inferInstanceAs (Decidable (destination = dst ∧ Scoped dst rest))
  | statistics :: rest => decidableScoped dst rest

lemma scoped_append {dst : GuidPrefix} {ps qs : List Piece} :
    Scoped dst (ps ++ qs) ↔ Scoped dst ps ∧ Scoped (scopeAfter dst ps) qs := by
  induction ps generalizing dst with
  | nil => simp [Scoped, scopeAfter]
  | cons p ps ih => cases p <;> simp [Scoped, scopeAfter, ih, and_assoc]

end Piece

namespace MessageGroup

open Piece

/-- Every message, handed to the sender or not, has its submessages for the requested
destinations. -/
structure WellScoped (s : MessageGroup) : Prop where
  sent : ∀ msg ∈ s.sent, Scoped guidPrefixUnknown msg.pieces
  header : Scoped guidPrefixUnknown s.headerPieces

def withSubmessage (s : MessageGroup) (dst : GuidPrefix) (build : CdrMessage.Reader Built) :
    MessageGroup :=
  ((createSubmessage dst build).run s.initSubmessage).2

/-- The group does not write an INFO_DST for the call only if the message has the last one for the
same destination, and the submessage fits into that message or is for nobody in particular. -/
def RemembersRightly (s : MessageGroup) (call : Sender × GroupCall) : Prop :=
  let dst := call.2.destination call.1
  call.1.destinationsHaveChanged = false → s.currentDst = dst →
    scopeAfter guidPrefixUnknown s.headerPieces = dst ∧
      (dst = guidPrefixUnknown ∨
        s.reserved.hasSpace (s.withSubmessage dst (call.2.build call.1)).totalSize = true)

instance (s : MessageGroup) (call : Sender × GroupCall) : Decidable (s.RemembersRightly call) := by
  unfold RemembersRightly
  infer_instance

variable {accepts : Nat → Bool} {s : MessageGroup}

lemma addStatsSubmsg_wellScoped (h : s.WellScoped) :
    s.addStatsSubmsg.WellScoped ∧ s.addStatsSubmsg.submessagePieces = s.submessagePieces ∧
      s.addStatsSubmsg.currentDst = s.currentDst := by
  rw [addStatsSubmsg]
  split
  · exact ⟨⟨h.sent, scoped_append.2 ⟨h.header, trivial⟩⟩, rfl, rfl⟩
  · exact ⟨h, rfl, rfl⟩

lemma send_wp (h : s.WellScoped) :
    (send accepts).wp (fun _ s' => s'.WellScoped ∧ s'.submessagePieces = s.submessagePieces ∧
      s'.currentDst = s.currentDst) WellScoped s := by
  refine .ite (fun _ => ?_) fun _ => ⟨h, rfl, rfl⟩
  obtain ⟨h', hpieces, hdst⟩ := addStatsSubmsg_wellScoped h
  have hsent : ∀ msg ∈ s.addStatsSubmsg.sent ++
      [⟨s.addStatsSubmsg.headerPieces, s.addStatsSubmsg.buffersBytes⟩],
      Scoped guidPrefixUnknown msg.pieces := by
    simp only [List.mem_append, List.mem_singleton]
    rintro msg (hmem | rfl)
    · exact h'.sent msg hmem
    · exact h'.header
  exact .ite (fun _ => ⟨⟨hsent, h'.header⟩, hpieces, hdst⟩) fun _ => ⟨hsent, h'.header⟩

/-- A message that starts after a flush is empty, but the destination is still remembered. -/
theorem flush_wp (h : s.WellScoped) :
    (flush accepts).wp (fun _ s' => s'.WellScoped ∧ s'.headerPieces = [] ∧
      s'.submessagePieces = s.submessagePieces ∧ s'.currentDst = s.currentDst) WellScoped s := by
  refine (send_wp h).seq fun _ s' ⟨h', hpieces, hdst⟩ => ?_
  exact ⟨⟨h'.sent, trivial⟩, rfl, hpieces, hdst⟩

lemma flushAndReset_wp (h : s.WellScoped) :
    (flushAndReset accepts).wp (fun _ s' => s'.WellScoped ∧ s'.headerPieces = [] ∧
      s'.submessagePieces = s.submessagePieces ∧ s'.currentDst = guidPrefixUnknown)
      WellScoped s :=
  (flush_wp h).seq fun _ _ ⟨h', hheader, hpieces, _⟩ =>
    ⟨⟨h'.sent, h'.header⟩, hheader, hpieces, rfl⟩

lemma appendSubmessage_wp (h : s.WellScoped)
    (hscoped : Scoped (scopeAfter guidPrefixUnknown s.headerPieces) s.submessagePieces) :
    appendSubmessage.wp (fun _ s' => s'.WellScoped) WellScoped s := by
  simp only [wp, appendSubmessage]
  rcases (CdrMessage.addData (s.submessageMsg.buffer.slice 0 s.submessageMsg.length)).run
    s.reserved with ⟨_ | _ | _, header⟩
  · exact h
  · exact h
  · exact ⟨h.sent, scoped_append.2 ⟨h.header, hscoped⟩⟩

variable {dst : GuidPrefix}

section Room

variable (h : s.WellScoped) (hdst : s.currentDst = dst)
  (hfits : s.reserved.hasSpace s.totalSize = true →
    Scoped (scopeAfter guidPrefixUnknown s.headerPieces) s.submessagePieces)
  (hfresh : s.reserved.hasSpace s.totalSize = false → Scoped guidPrefixUnknown s.submessagePieces)
include h hdst hfits hfresh

/-- The INFO_DST that is lost with a flush is not written again: the destination is the one that is
remembered. -/
theorem makeRoom_wp :
    (makeRoom accepts dst).wp (fun _ s' => s'.WellScoped ∧
      Scoped (scopeAfter guidPrefixUnknown s'.headerPieces) s'.submessagePieces) WellScoped s := by
  refine .ite (fun hspace => ⟨h, hfits hspace⟩) fun hspace => ?_
  refine (flush_wp h).seq fun _ s' ⟨h', hheader, hpieces, hdst'⟩ => ?_
  rw [addInfoDstInHeader, wp_modify, if_neg (by simp [hdst', hdst])]
  refine ⟨h', ?_⟩
  rw [hheader, hpieces]
  exact hfresh (by simpa using hspace)

lemma insertSubmessage_wp {isBig : Bool} :
    (insertSubmessage accepts dst isBig).wp (fun _ => WellScoped) WellScoped s := by
  refine (makeRoom_wp h hdst hfits hfresh).seq fun _ s1 ⟨h1, hscoped⟩ => ?_
  refine (appendSubmessage_wp h1 hscoped).seq fun ok s2 h2 => ?_
  split
  · exact (flush_wp h2).seq fun _ s3 ⟨h3, _⟩ => h3
  · exact h2

end Room

lemma addInfoDstInSubmessage_wp (h : s.WellScoped) :
    (addInfoDstInSubmessage dst).wp (fun _ s' => s'.WellScoped ∧ s'.currentDst = dst ∧
      (s'.submessagePieces = s.submessagePieces ++ [.infoDst dst] ∨
        s' = s ∧ s.currentDst = dst)) WellScoped s := by
  rw [addInfoDstInSubmessage, wp_modify]
  by_cases hdst : s.currentDst = dst
  · rw [if_neg (not_not.2 hdst)]
    exact ⟨h, hdst, .inr ⟨rfl, hdst⟩⟩
  · rw [if_pos hdst]
    exact ⟨⟨h.sent, h.header⟩, rfl, .inl rfl⟩

/-- The pieces of the submessage that a call builds, and the message they are meant for. They start
with an INFO_DST unless the message is for this destination already, or empty and for all. -/
theorem checkAndMaybeFlush_wp {sender : Sender} (h : s.WellScoped) :
    (checkAndMaybeFlush accepts sender dst).wp (fun _ s' => s'.WellScoped ∧ s'.currentDst = dst ∧
      (s'.submessagePieces = [.infoDst dst] ∨
        s'.submessagePieces = [] ∧ s'.headerPieces = [] ∧ dst = guidPrefixUnknown ∨
        s' = s.initSubmessage ∧ sender.destinationsHaveChanged = false)) WellScoped s := by
  have h' : s.initSubmessage.WellScoped := ⟨h.sent, h.header⟩
  simp only [checkAndMaybeFlush, wp_modify_bind]
  cases hchanged : sender.destinationsHaveChanged with
  | true =>
    refine (flushAndReset_wp h').seq fun _ s1 ⟨h1, hheader, hpieces, hreset⟩ => ?_
    refine (addInfoDstInSubmessage_wp h1).mono fun _ s2 ⟨h2, hdst, hcases⟩ => ⟨h2, hdst, ?_⟩
    rcases hcases with hnew | ⟨rfl, hsame⟩
    · exact .inl (by rw [hnew, hpieces]; rfl)
    · exact .inr (.inl ⟨hpieces, hheader, hsame.symm.trans hreset⟩)
  | false =>
    refine (addInfoDstInSubmessage_wp h').mono fun _ s2 ⟨h2, hdst, hcases⟩ => ⟨h2, hdst, ?_⟩
    rcases hcases with hnew | ⟨hsame, -⟩
    · exact .inl hnew
    · exact .inr (.inr ⟨hsame, rfl⟩)

lemma createSubmessage_wp {build : CdrMessage.Reader Built} (h : s.WellScoped) :
    (createSubmessage dst build).wp (fun built s' => s'.WellScoped ∧ s'.currentDst = s.currentDst ∧
      s'.headerPieces = s.headerPieces ∧ s'.reserved = s.reserved ∧
      (built.ok = true → s'.submessagePieces = s.submessagePieces ++ [.submessage dst] ∧
        s' = ((createSubmessage dst build).run s).2)) WellScoped s := by
  simp only [wp, createSubmessage]
  rcases build.run s.submessageMsg with ⟨_ | built, msg⟩
  · exact ⟨⟨h.sent, h.header⟩, rfl, rfl, rfl, by simp⟩
  · exact ⟨⟨h.sent, h.header⟩, rfl, rfl, rfl, fun _ => ⟨rfl, rfl⟩⟩

/-- A submessage is added for the destination that was requested. The destination that the group
remembers need not be that of its message, hence the condition. -/
theorem addSubmessage_wp {sender : Sender} {build : CdrMessage.Reader Built} (h : s.WellScoped)
    (hright : sender.destinationsHaveChanged = false → s.currentDst = dst →
      scopeAfter guidPrefixUnknown s.headerPieces = dst ∧
        (dst = guidPrefixUnknown ∨ s.reserved.hasSpace (s.withSubmessage dst build).totalSize =
          true)) :
    (addSubmessage accepts sender dst build).wp (fun _ => WellScoped) WellScoped s := by
  refine (checkAndMaybeFlush_wp h).seq fun _ s1 ⟨h1, hdst, hpieces⟩ => ?_
  refine (createSubmessage_wp h1).seq fun built s2 ⟨h2, hdst2, hheader, hmsg, hok⟩ => ?_
  refine .ite (fun hbuilt => ?_) fun _ => h2
  obtain ⟨hall, hsame⟩ := hok hbuilt
  refine insertSubmessage_wp h2 (hdst2.trans hdst) ?_ ?_
  all_goals rw [hall]
  · intro _
    rw [hheader]
    rcases hpieces with hpieces | ⟨hpieces, hempty, rfl⟩ | ⟨rfl, hchanged⟩
    · simp [hpieces, Scoped]
    · simp [hpieces, hempty, Scoped, scopeAfter]
    · obtain ⟨hscope, -⟩ := hright hchanged hdst
      exact ⟨hscope.symm, trivial⟩
  · intro hspace
    rcases hpieces with hpieces | ⟨hpieces, hempty, rfl⟩ | ⟨rfl, hchanged⟩
    · simp [hpieces, Scoped]
    · simp [hpieces, Scoped]
    · obtain ⟨-, hfits⟩ := hright hchanged hdst
      rw [hmsg, hsame] at hspace
      rcases hfits with hunknown | hfits
      · exact ⟨hunknown, trivial⟩
      · exact absurd (hfits.symm.trans hspace) (by decide)

lemma checkLimitation_wp {size : Nat} (h : s.WellScoped) :
    (checkLimitation accepts size).wp (fun _ s' => s' = s) WellScoped s := by
  refine .ite (fun _ => ?_) fun _ => rfl
  exact (flushAndReset_wp h).seq fun _ _ ⟨h', _⟩ => h'

lemma step_wellScoped {call : Sender × GroupCall} (h : s.WellScoped)
    (hright : s.RemembersRightly call) : (s.step accepts call).WellScoped := by
  obtain ⟨sender, call⟩ := call
  have hadd : (addSubmessage accepts sender (call.destination sender) (call.build sender)).wp
      (fun _ => WellScoped) WellScoped s := addSubmessage_wp h hright
  refine wp.always ?_
  cases call with
  | data change own copyData expectsInlineQos
  | dataFrag change fragmentNumber own copyData expectsInlineQos =>
    refine (checkLimitation_wp h).seq fun _ s' hs' => ?_
    rw [hs']
    exact hadd
  | acknack snSet count finalFlag => exact .ite (fun _ => h) fun _ => hadd
  | heartbeat firstSN lastSN count isFinal livelinessFlag => exact hadd
  | gap initialSequence bitmap => exact hadd
  | gapFor initialSequence bitmap readerGuid => exact hadd
  | nackfrag writerSN fnState count => exact hadd

/-- If a group only leaves an INFO_DST out where the message has it already, every message that it
hands over has its submessages for the requested destinations, the last one of the destructor
included. -/
theorem destinations_wellScoped (accepts : Nat → Bool) (statistics : Bool)
    (header submessage : CdrMessage) (limitation : Nat) (calls : List (Sender × GroupCall))
    (hright : RunsWith (step accepts) RemembersRightly
      (create statistics header submessage limitation) calls) :
    ∀ msg ∈ ((send accepts).run
        (calls.foldl (step accepts) (create statistics header submessage limitation))).2.sent,
      Scoped guidPrefixUnknown msg.pieces := by
  have hcreate : (create statistics header submessage limitation).WellScoped :=
    ⟨fun _ hmem => absurd hmem List.not_mem_nil, trivial⟩
  have hrun := hright.keeps (I := WellScoped) (fun _ _ => step_wellScoped) hcreate
  exact ((send_wp hrun).mono fun _ _ h => h.1).always.sent

def sampleSender (changed : Bool) (dst : GuidPrefix) : Sender :=
  ⟨⟨Vector.replicate 12 7, .sample 2⟩, .noKey, changed, dst, []⟩

def twoHeartbeats : List (Sender × GroupCall) :=
  [(sampleSender true (Vector.replicate 12 1), .heartbeat 1 1 1 true false),
    (sampleSender false (Vector.replicate 12 1), .heartbeat 1 2 2 true false)]

def sampleGroup (statistics : Bool) (maxSize limitation : Nat) : MessageGroup :=
  create statistics (CdrMessage.emptyMessage maxSize) (CdrMessage.emptyMessage maxSize) limitation

theorem destinations_wellScoped_large :
    (∀ statistics, RunsWith (step fun _ => true) RemembersRightly (sampleGroup statistics 300 0)
      twoHeartbeats) ∧
    ∀ statistics, ∀ msg ∈ ((send fun _ => true).run
        (twoHeartbeats.foldl (step fun _ => true) (sampleGroup statistics 300 0))).2.sent,
      Scoped guidPrefixUnknown msg.pieces := by
  have hright : ∀ statistics, RunsWith (step fun _ => true) RemembersRightly
      (sampleGroup statistics 300 0) twoHeartbeats := by decide +kernel
  refine ⟨hright, fun statistics => ?_⟩
  have hright := hright statistics
  rw [sampleGroup] at hright ⊢
  exact destinations_wellScoped _ _ _ _ _ _ hright

/-- The second of two HEARTBEAT that do not fit into one message goes without INFO_DST, in a build
with statistics and in one without. -/
theorem second_message_unscoped :
    ¬Scoped guidPrefixUnknown [.submessage (Vector.replicate 12 1)] ∧
    ∀ statistics, ((send fun _ => true).run
        (twoHeartbeats.foldl (step fun _ => true) (sampleGroup statistics 160 0))).2.sent.map
          (·.pieces.filter (· ≠ .statistics)) =
      [[.infoDst (Vector.replicate 12 1), .submessage (Vector.replicate 12 1)],
        [.submessage (Vector.replicate 12 1)]] := by
  decide +kernel

end MessageGroup

end EasyDds.Rtps

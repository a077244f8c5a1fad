-- SUMMARY: Runs of direct control events and replay pages: their order, the pause and settled ids.
import FlyCockpit.Lib.Transition
import FlyCockpit.Continuity.Control

/-!
# Runs of the control cursor

Events are meant to be applied once, in the order of their numbers, and a pause is meant to end only
when the events that were missing are there. Neither holds of every run: a direct event is only
checked against gaps, not against numbers that are already taken, and a page lifts the pause
whatever it contains. `Steady` and `Settling` are the conditions on the calls under which they hold.
-/

namespace FlyCockpit.Continuity

open RemoteControlEventV1 List AttachmentContinuityState

/-! ## Pages -/

section Page

variable {sha256 : Bytes → Block 32} {state : AttachmentContinuityState} {l : ControlLedger}
  {event event' : RemoteControlEventV1} {page : List RemoteControlEventV1}

theorem ControlLedger.not_recorded_of_fresh (h : l.hashes.lookup event.header.eventId = none) :
    ¬l.Recorded sha256 event := by
  rw [Recorded, h]
  intro h
  cases h

namespace ControlLedger.Takes

theorem header_eq (h : l.Takes sha256 event event') : event'.header = event.sealedHeader sha256 :=
  decode_encode h.decodes

theorem fresh (h : l.Takes sha256 event event') : l.hashes.lookup event.header.eventId = none := by
  have hfresh := h.admits.fresh
  rw [h.header_eq] at hfresh
  exact hfresh

theorem not_recorded (h : l.Takes sha256 event event') : ¬l.Recorded sha256 event :=
  not_recorded_of_fresh h.fresh

theorem seq_eq (h : l.Takes sha256 event event') : event'.header.controlSeq = event.header.controlSeq := by
  rw [h.header_eq]
  rfl

end ControlLedger.Takes

theorem toNat_next {a b : UInt64} (h : b = a + 1) (hpos : 1 ≤ b) : b.toNat = a.toNat + 1 := by
  subst h
  rw [UInt64.le_iff_toNat_le] at hpos
  rw [UInt64.toNat_add] at hpos ⊢
  have hlt := a.toNat_lt
  simp only [UInt64.toNat_one] at hpos ⊢
  omega

theorem eq_next {a b : UInt64} (h : b.toNat = a.toNat + 1) : b = a + 1 := by
  have hlt := b.toNat_lt
  rw [← UInt64.toNat_inj, UInt64.toNat_add, UInt64.toNat_one]
  omega

theorem ControlLedger.Takes.toNat_seq (h : l.Takes sha256 event event') :
    event.header.controlSeq.toNat = l.seq.toNat + 1 := by
  refine toNat_next h.next ?_
  rw [← h.seq_eq]
  exact one_le_controlSeq h.decodes

/-- A page never moves the cursor back. -/
theorem seq_le_reconcile (page : List RemoteControlEventV1) (state : AttachmentContinuityState) :
    state.ledger.seq ≤ (state.reconcileAuthoritativeReplay sha256 page).1.ledger.seq := by
  induction page generalizing state with
  | nil => exact UInt64.le_refl _
  | cons event page ih =>
    have hstep := replayed_replayOne sha256 state event
    rw [reconcileAuthoritativeReplay]
    generalize replayOne sha256 state event = step at hstep ⊢
    cases hstep with
    | recorded => exact ih state
    | blocked => exact UInt64.le_refl _
    | refused _ hnext _ hseq =>
      dsimp only
      obtain hseq | ⟨hpos, hseq, -⟩ := hseq
      · exact hseq ▸ UInt64.le_refl _
      · rw [hseq, UInt64.le_iff_toNat_le, toNat_next hnext hpos]
        omega
    | @taken event' after htakes hledger =>
      refine UInt64.le_trans ?_ (ih after)
      rw [hledger, UInt64.le_iff_toNat_le, ControlLedger.enter, htakes.toNat_seq]
      omega

/-- The events of a page that are applied continue the cursor one by one. -/
theorem toNat_replayedSeqs (page : List RemoteControlEventV1) (state : AttachmentContinuityState) :
    (state.replayedSeqs sha256 page).map UInt64.toNat =
      List.range' (state.ledger.seq.toNat + 1) (state.replayedSeqs sha256 page).length := by
  induction page generalizing state with
  | nil => rfl
  | cons event page ih =>
    have hstep := replayed_replayOne sha256 state event
    rw [replayedSeqs]
    generalize replayOne sha256 state event = step at hstep ⊢
    cases hstep with
    | recorded => exact ih state
    | blocked => rfl
    | refused => rfl
    | @taken event' after htakes hledger =>
      simp only [map_cons, length_cons, List.range'_succ, ih after, hledger,
        ControlLedger.enter, htakes.toNat_seq]

/-- If none of its events is inconsistent, a page moves the cursor by the events it applies. -/
theorem seq_reconcile (page : List RemoteControlEventV1) (state : AttachmentContinuityState)
    (h : ∀ event ∈ page, ∀ event',
      decode sha256 (event.encode sha256) = .ok event' → event'.Consistent) :
    (state.reconcileAuthoritativeReplay sha256 page).1.ledger.seq.toNat =
      state.ledger.seq.toNat + (state.replayedSeqs sha256 page).length := by
  induction page generalizing state with
  | nil => rfl
  | cons event page ih =>
    obtain ⟨hevent, hpage⟩ := forall_mem_cons.1 h
    have hstep := replayed_replayOne sha256 state event
    rw [reconcileAuthoritativeReplay, replayedSeqs]
    generalize replayOne sha256 state event = step at hstep ⊢
    cases hstep with
    | recorded => exact ih state hpage
    | blocked => rfl
    | refused _ _ _ hseq =>
      obtain hseq | ⟨-, -, event', hdecode, hinconsistent⟩ := hseq
      · exact congrArg UInt64.toNat hseq
      · exact absurd (hevent event' hdecode) hinconsistent
    | @taken event' after htakes hledger =>
      rw [length_cons, ih after hpage, hledger, ControlLedger.enter, htakes.toNat_seq]
      omega

/-! ## What a page brings -/

namespace ControlLedger

/-- What is kept of an event. -/
def record (sha256 : Bytes → Block 32) (event : RemoteControlEventV1) : Block 16 × Block 32 :=
  (event.header.eventId, controlEventByteHash sha256 (event.encode sha256))

/-- The events of a page that are not recorded yet, each once. -/
def unknown (sha256 : Bytes → Block 32) (l : ControlLedger) (page : List RemoteControlEventV1) :
    List RemoteControlEventV1 :=
  (page.filter fun event => ¬l.Recorded sha256 event).eraseDupsBy fun a b =>
    record sha256 a = record sha256 b

/-- Events with the next numbers, new ids, epochs that do not go back and well-formed, consistent
encodings. -/
structure Continues (sha256 : Bytes → Block 32) (l : ControlLedger)
    (events : List RemoteControlEventV1) : Prop where
  numbers : events.map (·.header.controlSeq.toNat) = List.range' (l.seq.toNat + 1) events.length
  ids : (events.map (·.header.eventId)).Nodup
  fresh : ∀ event ∈ events, l.hashes.lookup event.header.eventId = none
  policy : (l.policyEpoch :: events.map (·.header.policyEpoch)).IsChain (· ≤ ·)
  authority : (l.authorityEpoch :: events.map (·.header.authorityEpoch)).IsChain (· ≤ ·)
  consistent : ∀ event ∈ events, ∃ event',
    decode sha256 (event.encode sha256) = .ok event' ∧ event'.Consistent

/-- The events of the page that continue the ledger reach the number `n`. -/
def Brings (sha256 : Bytes → Block 32) (l : ControlLedger) (page : List RemoteControlEventV1)
    (n : UInt64) : Prop :=
  ∃ front, front <+: l.unknown sha256 page ∧ l.Continues sha256 front ∧
    n.toNat ≤ l.seq.toNat + front.length

/-- Behind events that continue the ledger comes one that does not: it has the next number and a new
id, so that it is tried, or it is the first and operations are paused. -/
def BreaksOff (sha256 : Bytes → Block 32) (l : ControlLedger) (paused : Bool)
    (page : List RemoteControlEventV1) : Prop :=
  ∃ front event, front ++ [event] <+: l.unknown sha256 page ∧ l.Continues sha256 front ∧
    ¬l.Continues sha256 (front ++ [event]) ∧
    (front = [] ∧ paused = true ∨ event.header.controlSeq.toNat = l.seq.toNat + front.length + 1 ∧
        (∀ e ∈ front, e.header.eventId ≠ event.header.eventId) ∧
        l.hashes.lookup event.header.eventId = none)

/-- What is recorded behind an event that is applied. -/
theorem Takes.recorded_enter (h : l.Takes sha256 event event') (e : RemoteControlEventV1) :
    (l.enter event.header (controlEventByteHash sha256 (event.encode sha256))).Recorded sha256 e ↔
      record sha256 e = record sha256 event ∨ l.Recorded sha256 e := by
  rw [Recorded, Recorded, enter, Table.lookup_insert_eq, record, record, Prod.mk.injEq]
  split_ifs with heq
  · rw [heq, h.fresh, Option.some_inj]
    simp [eq_comm]
  · simp [heq]

/-- Behind an event that is applied, the page has the same unknown events as before. -/
theorem Takes.unknown_cons (h : l.Takes sha256 event event') (page : List RemoteControlEventV1) :
    l.unknown sha256 (event :: page) = event :: (l.enter event.header
      (controlEventByteHash sha256 (event.encode sha256))).unknown sha256 page := by
  rw [unknown, filter_cons_of_pos (by simpa using h.not_recorded), eraseDupsBy_cons,
    filter_filter, unknown]
  congr 2
  refine filter_congr fun e _ => ?_
  simp [h.recorded_enter]

theorem Continues.nil : l.Continues sha256 [] where
  numbers := rfl
  ids := .nil
  fresh := nofun
  policy := .singleton _
  authority := .singleton _
  consistent := nofun

theorem Takes.continues_cons (h : l.Takes sha256 event event') (events : List RemoteControlEventV1) :
    l.Continues sha256 (event :: events) ↔ (l.enter event.header
      (controlEventByteHash sha256 (event.encode sha256))).Continues sha256 events := by
  have hfresh : ∀ e : RemoteControlEventV1, (l.enter event.header (controlEventByteHash sha256
      (event.encode sha256))).hashes.lookup e.header.eventId = none ↔
        e.header.eventId ≠ event.header.eventId ∧ l.hashes.lookup e.header.eventId = none := by
    intro e
    rw [enter, Table.lookup_insert_eq]
    split_ifs with heq
    · simp [heq]
    · simp [heq]
  have hadmits := h.admits
  rw [h.header_eq] at hadmits
  constructor
  · rintro ⟨hnumbers, hids, hnew, hpolicy, hauthority, hconsistent⟩
    rw [map_cons, nodup_cons] at hids
    refine ⟨?_, hids.2, fun e he => (hfresh e).2 ⟨?_, hnew e (mem_cons_of_mem _ he)⟩,
      (isChain_cons_cons.1 hpolicy).2, (isChain_cons_cons.1 hauthority).2,
      fun e he => hconsistent e (mem_cons_of_mem _ he)⟩
    · rw [enter, h.toNat_seq]
      exact (cons_eq_cons.1 hnumbers).2
    · rintro heq
      exact hids.1 (mem_map.2 ⟨e, he, heq⟩)
  · rintro ⟨hnumbers, hids, hnew, hpolicy, hauthority, hconsistent⟩
    refine ⟨?_, nodup_cons.2 ⟨?_, hids⟩, forall_mem_cons.2 ⟨h.fresh, fun e he =>
      ((hfresh e).1 (hnew e he)).2⟩, isChain_cons_cons.2 ⟨hadmits.policy, hpolicy⟩,
      isChain_cons_cons.2 ⟨hadmits.authority, hauthority⟩,
      forall_mem_cons.2 ⟨⟨event', h.decodes, h.consistent⟩, hconsistent⟩⟩
    · rw [enter, h.toNat_seq] at hnumbers
      rw [map_cons, length_cons, List.range'_succ, hnumbers, h.toNat_seq]
    · intro hmem
      obtain ⟨e, he, heq⟩ := mem_map.1 hmem
      exact ((hfresh e).1 (hnew e he)).1 heq

theorem Continues.exists_takes {events : List RemoteControlEventV1}
    (h : l.Continues sha256 (event :: events)) : ∃ event', l.Takes sha256 event event' := by
  obtain ⟨event', hdecode, hconsistent⟩ := h.consistent event mem_cons_self
  have hnext : event.header.controlSeq = l.seq + 1 := eq_next (cons_eq_cons.1 h.numbers).1
  refine ⟨event', hdecode, hnext, ?_, hconsistent⟩
  rw [decode_encode hdecode]
  exact ⟨h.fresh event mem_cons_self, UInt64.le_of_eq hnext,
    (isChain_cons_cons.1 h.policy).1, (isChain_cons_cons.1 h.authority).1⟩

end ControlLedger

/-- A page is its unknown events: those in front of the first one are skipped. -/
theorem reconcile_skip (page : List RemoteControlEventV1) (state : AttachmentContinuityState) :
    state.ledger.unknown sha256 page = [] ∨ ∃ event later, ¬state.ledger.Recorded sha256 event ∧
        state.ledger.unknown sha256 page = state.ledger.unknown sha256 (event :: later) ∧
        state.reconcileAuthoritativeReplay sha256 page =
          state.reconcileAuthoritativeReplay sha256 (event :: later) := by
  induction page with
  | nil => exact .inl rfl
  | cons event page ih =>
    by_cases hrecorded : state.ledger.Recorded sha256 event
    · have hunknown : state.ledger.unknown sha256 (event :: page) = state.ledger.unknown sha256 page := by
        simp [ControlLedger.unknown, hrecorded]
      have hskip : state.reconcileAuthoritativeReplay sha256 (event :: page) =
          state.reconcileAuthoritativeReplay sha256 page := by
        have hstep := replayed_replayOne sha256 state event
        rw [reconcileAuthoritativeReplay]
        generalize replayOne sha256 state event = step at hstep ⊢
        cases hstep with
        | recorded => rfl
        | blocked hnot => exact absurd hrecorded hnot
        | refused hfresh => exact absurd hrecorded (ControlLedger.not_recorded_of_fresh hfresh)
        | taken htakes => exact absurd hrecorded htakes.not_recorded
      rw [hunknown, hskip]
      exact ih
    · exact .inr ⟨event, page, hrecorded, rfl, rfl⟩

theorem first_unknown {first : RemoteControlEventV1} {later more : List RemoteControlEventV1}
    (hnot : ¬l.Recorded sha256 first) (h : l.unknown sha256 (first :: later) = event :: more) :
    first = event := by
  rw [ControlLedger.unknown, filter_cons_of_pos (by simpa using hnot), eraseDupsBy_cons] at h
  exact (cons_eq_cons.1 h).1

/-- The first unknown event of a page is applied if it continues the ledger. -/
theorem reconcile_of_continues {events more : List RemoteControlEventV1}
    (hunknown : state.ledger.unknown sha256 page = event :: more)
    (hcontinues : state.ledger.Continues sha256 (event :: events)) :
    ∃ (after : AttachmentContinuityState) (later : _), (state.reconcileAuthoritativeReplay sha256 page).1 =
        (after.reconcileAuthoritativeReplay sha256 later).1 ∧
      after.ledger.unknown sha256 later = more ∧ after.ledger = state.ledger.enter event.header
        (controlEventByteHash sha256 (event.encode sha256)) ∧
      ∀ events, state.ledger.Continues sha256 (event :: events) ↔
        after.ledger.Continues sha256 events := by
  obtain ⟨event', htakes⟩ := hcontinues.exists_takes
  obtain hnil | ⟨first, later, hnot, hpage, hskip⟩ := @reconcile_skip sha256 page state
  · cases hnil.symm.trans hunknown
  · obtain rfl := first_unknown hnot (hpage.symm.trans hunknown)
    rw [hpage, htakes.unknown_cons] at hunknown
    have hstep := replayed_replayOne sha256 state first
    rw [hskip, reconcileAuthoritativeReplay]
    generalize replayOne sha256 state first = step at hstep ⊢
    cases hstep with
    | recorded hrecorded => exact absurd hrecorded hnot
    | blocked _ hblocked => exact (hblocked.elim (· htakes.fresh) (· htakes.next)).elim
    | refused _ _ hrefused => exact absurd htakes (hrefused event')
    | @taken event'' after htakes' hledger =>
      refine ⟨after, later, rfl, ?_, hledger, fun events => ?_⟩
      · rw [hledger]
        exact (cons_eq_cons.1 hunknown).2
      · rw [hledger]
        exact htakes.continues_cons events

theorem le_reconcile {n : UInt64} (h : state.ledger.Brings sha256 page n) :
    n ≤ (state.reconcileAuthoritativeReplay sha256 page).1.ledger.seq := by
  obtain ⟨front, ⟨rest, hfront⟩, hcontinues, hn⟩ := h
  induction front generalizing state page with
  | nil => exact UInt64.le_trans (UInt64.le_iff_toNat_le.2 hn) (seq_le_reconcile page state)
  | cons event front ih =>
    obtain ⟨event', htakes⟩ := hcontinues.exists_takes
    obtain ⟨after, later, hreconcile, hlater, hledger, hiff⟩ :=
      reconcile_of_continues hfront.symm hcontinues
    rw [hreconcile]
    refine ih hlater.symm ((hiff front).1 hcontinues) ?_
    rw [length_cons] at hn
    rw [hledger, ControlLedger.enter, htakes.toNat_seq]
    omega

theorem paused_reconcile (h : state.ledger.BreaksOff sha256 state.operationsPaused page) :
    (state.reconcileAuthoritativeReplay sha256 page).1.operationsPaused = true := by
  obtain ⟨front, event, ⟨rest, hfront⟩, hcontinues, hbreaks, htried⟩ := h
  generalize hpaused : state.operationsPaused = paused at htried
  induction front generalizing state page paused with
  | nil =>
    obtain hnil | ⟨first, later, hnot, hpage, hskip⟩ := @reconcile_skip sha256 page state
    · cases hnil.symm.trans hfront.symm
    · obtain rfl := first_unknown hnot (hpage.symm.trans hfront.symm)
      have hstep := replayed_replayOne sha256 state first
      rw [hskip, reconcileAuthoritativeReplay]
      generalize replayOne sha256 state first = step at hstep ⊢
      cases hstep with
      | recorded hrecorded => exact absurd hrecorded hnot
      | blocked _ hblocked =>
        obtain ⟨-, rfl⟩ | ⟨hnumber, -, hfresh⟩ := htried
        · exact hpaused
        · exact (hblocked.elim (· hfresh) (· (eq_next hnumber))).elim
      | refused _ _ _ _ hpaused => exact hpaused
      | taken htakes => exact absurd ((htakes.continues_cons []).2 .nil) hbreaks
  | cons first front ih =>
    obtain ⟨event', htakes⟩ := hcontinues.exists_takes
    obtain ⟨after, later, hreconcile, hlater, hledger, hiff⟩ :=
      reconcile_of_continues hfront.symm hcontinues
    rw [hreconcile]
    refine ih hlater.symm ((hiff front).1 hcontinues) (fun h => hbreaks ((hiff _).2 h)) _ rfl ?_
    obtain ⟨hnil, -⟩ | ⟨hnumber, hids, hfresh⟩ := htried
    · cases hnil
    · refine .inr ⟨?_, fun e he => hids e (mem_cons_of_mem _ he), ?_⟩
      · rw [length_cons] at hnumber
        rw [hledger, ControlLedger.enter, htakes.toNat_seq]
        omega
      · rw [hledger, ControlLedger.enter, Table.lookup_insert_eq,
          if_neg (hids first mem_cons_self).symm, hfresh]

end Page

/-! ## Runs -/

/-- An attachment with what was observed of it: the numbers of the events reported as applied, the
positions of the cursor, the latest first, and the numbers of the events refused as a gap. -/
structure Attachment where
  state : AttachmentContinuityState := {}
  applied : List UInt64 := []
  cursors : List UInt64 := [0]
  refused : List UInt64 := []

inductive Call
  | apply (bytes : Bytes)
  | reconcile (page : List RemoteControlEventV1)

/-- The number in the header of an event. -/
def announcedSeq (sha256 : Bytes → Block 32) (bytes : Bytes) : List UInt64 :=
  match decode sha256 bytes with
  | .error _ => []
  | .ok event => [event.header.controlSeq]

section Runs

variable {sha256 : Bytes → Block 32} {s : Attachment}

theorem announcedSeq_of_decode {bytes : Bytes} {event : RemoteControlEventV1}
    (h : decode sha256 bytes = .ok event) :
    announcedSeq sha256 bytes = [event.header.controlSeq] := by
  rw [announcedSeq, h]

namespace Attachment

def after (sha256 : Bytes → Block 32) (s : Attachment) : Call → Attachment
  | .apply bytes =>
    let (state, result) := s.state.applyControlEvent sha256 bytes
    { state
      applied := if result = .applied then s.applied ++ announcedSeq sha256 bytes else s.applied
      cursors := state.lastAppliedControlSeq :: s.cursors
      refused := if result = .sequenceGap then announcedSeq sha256 bytes ++ s.refused else s.refused }
  | .reconcile page =>
    let (state, _) := s.state.reconcileAuthoritativeReplay sha256 page
    { state
      applied := s.applied ++ s.state.replayedSeqs sha256 page
      cursors := state.lastAppliedControlSeq :: s.cursors
      refused := s.refused }

/-- The attachment has just been created, with any children and any lease. -/
structure Created (s : Attachment) : Prop where
  ledger : s.state.ledger = ⟨0, 0, 0, ∅⟩
  running : s.state.operationsPaused = false
  applied : s.applied = []
  cursors : s.cursors = [0]
  refused : s.refused = []

def system (sha256 : Bytes → Block 32) : Lts Attachment Call where
  init := Created
  step s call t := t = s.after sha256 call

/-- The events reported as applied are those numbered 1, 2, 3 and so on, in that order, and the
cursor never went back. -/
def InOrder (s : Attachment) : Prop :=
  s.applied.map UInt64.toNat = List.range' 1 s.applied.length ∧ s.cursors.Pairwise (· ≥ ·)

instance : Decidable s.InOrder := inferInstanceAs (Decidable (_ ∧ _))

/-- No event that was refused as a gap is missing while operations go on. -/
def Complete (s : Attachment) : Prop :=
  s.state.operationsPaused = true ∨ ∀ n ∈ s.refused, n ≤ s.state.ledger.seq

/-- The cursor counts the events that were applied. -/
structure Counted (s : Attachment) : Prop where
  inOrder : s.InOrder
  cursor : s.cursors.head? = some s.state.ledger.seq
  count : s.state.ledger.seq.toNat = s.applied.length

end Attachment

/-- A direct event that passes the checks has the number after the cursor, and neither it nor an
event of a page is inconsistent. -/
def Call.Steady (sha256 : Bytes → Block 32) (s : Attachment) : Call → Prop
  | .apply bytes => ∀ event, decode sha256 bytes = .ok event →
      s.state.ledger.Admits event.header →
        event.header.controlSeq = s.state.ledger.seq + 1 ∧ event.Consistent
  | .reconcile page => ∀ event ∈ page, ∀ event',
      decode sha256 (event.encode sha256) = .ok event' → event'.Consistent

/-- While operations go on, a direct event that passes the checks is not behind the cursor; a page
brings the events that were refused as a gap, or breaks off at an event that leaves a pause. -/
def Call.Settling (sha256 : Bytes → Block 32) (s : Attachment) : Call → Prop
  | .apply bytes => s.state.operationsPaused = true ∨
      ∀ event, decode sha256 bytes = .ok event →
        s.state.ledger.Admits event.header → s.state.ledger.seq ≤ event.header.controlSeq
  | .reconcile page => (∀ n ∈ s.refused, s.state.ledger.Brings sha256 page n) ∨
      s.state.ledger.BreaksOff sha256 s.state.operationsPaused page

namespace Attachment

/-- A call that adds the numbers after the cursor. -/
theorem Counted.extend (h : s.Counted) {t : Attachment} (added : List UInt64)
    (happlied : t.applied = s.applied ++ added)
    (hcursors : t.cursors = t.state.ledger.seq :: s.cursors)
    (hadded : added.map UInt64.toNat = List.range' (s.state.ledger.seq.toNat + 1) added.length)
    (hseq : t.state.ledger.seq.toNat = s.state.ledger.seq.toNat + added.length) : t.Counted := by
  obtain ⟨⟨hnumbers, hsorted⟩, hcursor, hcount⟩ := h
  refine ⟨⟨?_, ?_⟩, by rw [hcursors, List.head?_cons], ?_⟩
  · rw [happlied, map_append, hnumbers, hadded, hcount, length_append, Nat.add_comm,
      List.range'_append_1]
  · rw [hcursors]
    refine pairwise_cons.2 ⟨fun n hn => ?_, hsorted⟩
    obtain ⟨earlier, hearlier⟩ := List.head?_eq_some_iff.1 hcursor
    have hle : s.state.ledger.seq ≤ t.state.ledger.seq := by
      rw [UInt64.le_iff_toNat_le, hseq]
      omega
    rw [hearlier] at hn hsorted
    obtain rfl | hn := mem_cons.1 hn
    · exact hle
    · exact UInt64.le_trans (rel_of_pairwise_cons hsorted hn) hle
  · rw [happlied, hseq, hcount, length_append]

theorem Counted.after (h : s.Counted) {call : Call} (hsteady : call.Steady sha256 s) :
    (s.after sha256 call).Counted := by
  cases call with
  | apply bytes =>
    have houtcome := outcome_applyControlEvent sha256 s.state bytes
    rw [Attachment.after]
    generalize applyControlEvent sha256 s.state bytes = answer at houtcome ⊢
    obtain ⟨state, result⟩ := answer
    dsimp only at houtcome ⊢
    cases houtcome with
    | refused _ hledger hresult =>
      exact h.extend [] (by rw [if_neg hresult, append_nil]) rfl rfl
        (congrArg (·.seq.toNat) hledger)
    | duplicate => exact h.extend [] (by rw [if_neg nofun, append_nil]) rfl rfl rfl
    | inconsistent hdecode hadmits hconsistent =>
      exact absurd (hsteady _ hdecode hadmits).2 hconsistent
    | @applied event _ hdecode hadmits _ hledger =>
      have hnext := (hsteady _ hdecode hadmits).1
      have hpos := one_le_controlSeq hdecode
      refine h.extend [event.header.controlSeq] ?_ rfl ?_ ?_
      · rw [if_pos rfl, announcedSeq_of_decode hdecode]
      · exact congrArg (fun n => [n]) (toNat_next hnext hpos)
      · exact (congrArg (·.seq.toNat) hledger).trans (toNat_next hnext hpos)
  | reconcile page =>
    exact h.extend _ rfl rfl (toNat_replayedSeqs page s.state) (seq_reconcile page s.state hsteady)

/-- In a run of steady calls the events are applied once and in order. -/
theorem applied_in_order
    (h : (system sha256).ReachableBy (fun s call => call.Steady sha256 s) s) : s.InOrder := by
  refine (h.invariant (I := Counted) ?_ ?_).inOrder
  · rintro s ⟨hledger, -, happlied, hcursors, -⟩
    refine ⟨?_, ?_, ?_⟩
    · rw [InOrder, happlied, hcursors]
      exact ⟨rfl, List.pairwise_singleton _ _⟩
    · rw [hcursors, hledger]
      rfl
    · rw [happlied, hledger]
      rfl
  · rintro s call _ hs hsteady rfl
    exact hs.after hsteady

theorem Complete.after (h : s.Complete) {call : Call} (hsettling : call.Settling sha256 s) :
    (s.after sha256 call).Complete := by
  cases call with
  | apply bytes =>
    have houtcome := outcome_applyControlEvent sha256 s.state bytes
    rw [Complete, Attachment.after]
    generalize applyControlEvent sha256 s.state bytes = answer at houtcome ⊢
    obtain ⟨state, result⟩ := answer
    dsimp only at houtcome ⊢
    cases houtcome with
    | refused _ _ _ hpaused => exact .inl hpaused
    | duplicate => exact h
    | inconsistent _ _ _ _ hpaused => exact .inl hpaused
    | applied hdecode hadmits _ hledger hpaused =>
      rw [hpaused, hledger]
      obtain hpaused | hsettling := hsettling
      · exact .inl hpaused
      · exact h.imp_right fun hall n hn => UInt64.le_trans (hall n hn) (hsettling _ hdecode hadmits)
  | reconcile page =>
    obtain hbrings | hbreaks := hsettling
    · exact .inr fun n hn => le_reconcile (hbrings n hn)
    · exact .inl (paused_reconcile hbreaks)

/-- In a run of settling calls operations go on only behind every event refused as a gap. -/
theorem resumed_complete
    (h : (system sha256).ReachableBy (fun s call => call.Settling sha256 s) s) : s.Complete := by
  refine h.invariant (I := Complete) ?_ ?_
  · rintro s ⟨-, -, -, -, hrefused⟩
    rw [Complete, hrefused]
    exact .inr (List.forall_mem_nil _)
  · rintro s call _ hs hsettling rfl
    exact hs.after hsettling

end Attachment

end Runs

/-! ## Settled ids -/

/-- What a later ledger keeps of an earlier one: no epoch goes back and no recorded hash changes. -/
structure ControlLedger.Extends (l l' : ControlLedger) : Prop where
  policy : l.policyEpoch ≤ l'.policyEpoch
  authority : l.authorityEpoch ≤ l'.authorityEpoch
  hashes : ∀ id hash, l.hashes.lookup id = some hash → l'.hashes.lookup id = some hash

section Settled

variable {sha256 : Bytes → Block 32} {l l' : ControlLedger} {state : AttachmentContinuityState}

namespace ControlLedger.Extends

theorem refl (l : ControlLedger) : l.Extends l :=
  ⟨UInt64.le_refl _, UInt64.le_refl _, fun _ _ h => h⟩

theorem enter (h : l.Extends l') {header : RemoteControlEventHeaderV1} (hadmits : l'.Admits header)
    (byteHash : Block 32) : l.Extends (l'.enter header byteHash) := by
  refine ⟨UInt64.le_trans h.policy hadmits.policy, UInt64.le_trans h.authority hadmits.authority,
    fun id hash hknown => ?_⟩
  have hkept := h.hashes id hash hknown
  rw [ControlLedger.enter, Table.lookup_insert_eq, if_neg, hkept]
  rintro rfl
  cases hkept.symm.trans hadmits.fresh

theorem apply (h : l.Extends state.ledger) (bytes : Bytes) :
    l.Extends (state.applyControlEvent sha256 bytes).1.ledger := by
  have houtcome := outcome_applyControlEvent sha256 state bytes
  generalize applyControlEvent sha256 state bytes = answer at houtcome ⊢
  obtain ⟨after, result⟩ := answer
  cases houtcome with
  | refused _ hledger => exact hledger ▸ h
  | duplicate => exact h
  | inconsistent _ hadmits _ hledger => exact hledger ▸ h.enter hadmits _
  | applied _ hadmits _ hledger => exact hledger ▸ h.enter hadmits _

theorem reconcile (h : l.Extends state.ledger) (page : List RemoteControlEventV1) :
    l.Extends (state.reconcileAuthoritativeReplay sha256 page).1.ledger := by
  induction page generalizing state with
  | nil => exact h
  | cons event page ih =>
    have happly := @apply sha256 l { state with operationsPaused := false } h (event.encode sha256)
    rw [reconcileAuthoritativeReplay, replayOne]
    generalize applyControlEvent sha256 _ (event.encode sha256) = answer at happly ⊢
    cases state.controlEventHashes.lookup event.header.eventId with
    | some existing =>
      dsimp only
      split_ifs
      · exact ih h
      · exact h
    | none =>
      dsimp only
      split_ifs
      · exact h
      · exact happly
      · exact ih happly

theorem run {s : Attachment} (h : l.Extends s.state.ledger) (calls : List Call) :
    l.Extends (calls.foldl (Attachment.after sha256) s).state.ledger := by
  induction calls generalizing s with
  | nil => exact h
  | cons call calls ih =>
    refine ih (s := s.after sha256 call) ?_
    cases call with
    | apply bytes => exact h.apply bytes
    | reconcile page => exact h.reconcile page

end ControlLedger.Extends

/-- Once an event is applied its id is settled: after any further calls the epochs are no lower, the
same bytes are a duplicate and change nothing, and other bytes under the id only pause. -/
theorem Attachment.applied_settles_id {s : Attachment} {bytes bytes' : Bytes}
    {event event' : RemoteControlEventV1}
    (happlied : (s.state.applyControlEvent sha256 bytes).2 = .applied)
    (hdecode : RemoteControlEventV1.decode sha256 bytes = .ok event)
    (hdecode' : RemoteControlEventV1.decode sha256 bytes' = .ok event')
    (hid : event'.header.eventId = event.header.eventId) (calls : List Call) :
    let later := (calls.foldl (after sha256) (s.after sha256 (.apply bytes))).state
    event.header.policyEpoch ≤ later.lastAppliedPolicyEpoch ∧
      event.header.authorityEpoch ≤ later.lastAppliedAuthorityEpoch ∧
      later.applyControlEvent sha256 bytes' =
        if controlEventByteHash sha256 bytes = controlEventByteHash sha256 bytes' then
          (later, .duplicateIdempotent) else (later.pause, .conflict) := by
  intro later
  have hentered : (s.after sha256 (.apply bytes)).state.ledger =
      s.state.ledger.enter event.header (controlEventByteHash sha256 bytes) := by
    have houtcome := outcome_applyControlEvent sha256 s.state bytes
    rw [after]
    generalize applyControlEvent sha256 s.state bytes = answer at houtcome happlied ⊢
    obtain ⟨state, result⟩ := answer
    cases happlied
    cases houtcome with
    | refused _ _ hresult => exact absurd rfl hresult
    | applied hok _ _ hledger =>
      cases hdecode.symm.trans hok
      exact hledger
  have hrun := @ControlLedger.Extends.run sha256 _ (s.after sha256 (.apply bytes)) (.refl _) calls
  rw [hentered] at hrun
  have hknown : later.controlEventHashes.lookup event'.header.eventId =
      some (controlEventByteHash sha256 bytes) :=
    hrun.hashes _ _ (hid ▸ AList.lookup_insert _)
  refine ⟨hrun.policy, hrun.authority, ?_⟩
  simp only [applyControlEvent, hdecode', hknown]

end Settled

/-! ## An old number and a short page -/

/-- A stand-in for SHA-256 that tells the events below apart. -/
def leadingBytes (bytes : Bytes) : Block 32 := Block.cut bytes 0 32

def drainEvent (seq : UInt64) (id : UInt8) : RemoteControlEventV1 :=
  .seal leadingBytes seq (Block.fill 16 id) 0 0 0 0 (.drain 0 0)

def drainCall (seq : UInt64) (id : UInt8) : Call := .apply ((drainEvent seq id).encode leadingBytes)

/-- The first two events are applied. -/
def twoApplied : Attachment :=
  (Attachment.after leadingBytes {} (drainCall 1 1)).after leadingBytes (drainCall 2 2)

theorem twoApplied_history : (Attachment.system leadingBytes).History twoApplied
    [(Attachment.after leadingBytes {} (drainCall 1 1), drainCall 2 2), ({}, drainCall 1 1)] :=
  .step (.step (.init ⟨rfl, rfl, rfl, rfl, rfl⟩) rfl) rfl

/-- An event with the id of the first and another number, after both are applied. -/
theorem twoApplied_settles_id :
    (twoApplied.state.applyControlEvent leadingBytes ((drainEvent 3 1).encode leadingBytes)).2 =
      .conflict := by
  have h := (@Attachment.applied_settles_id leadingBytes {} ((drainEvent 1 1).encode leadingBytes)
    ((drainEvent 3 1).encode leadingBytes) (drainEvent 1 1) (drainEvent 3 1) (by decide +kernel) rfl
    rfl rfl [drainCall 2 2]).2.2
  rw [if_neg (by decide +kernel)] at h
  exact congrArg Prod.snd h

/-- A third event, with an id of its own and the number of the first, is applied as well. -/
theorem old_number_applied :
    (Attachment.system leadingBytes).Reachable (twoApplied.after leadingBytes (drainCall 1 3)) ∧
      (twoApplied.after leadingBytes (drainCall 1 3)).applied = [1, 2, 1] ∧
      ¬(twoApplied.after leadingBytes (drainCall 1 3)).InOrder :=
  ⟨twoApplied_history.reachable.step rfl, by decide +kernel, by decide +kernel⟩

/-- The fifth event comes first and is refused. -/
def awaiting : Attachment := Attachment.after leadingBytes {} (drainCall 5 5)

/-- A page with the first and the fifth event is turned away as a gap, and lifts the pause. -/
theorem short_page_resumes : (Attachment.system leadingBytes).Reachable
        (awaiting.after leadingBytes (.reconcile [drainEvent 1 1, drainEvent 5 5])) ∧
      awaiting.state.operationsPaused = true ∧ awaiting.refused = [5] ∧
      (awaiting.state.reconcileAuthoritativeReplay leadingBytes
        [drainEvent 1 1, drainEvent 5 5]).2 = .sequenceGap ∧
      ¬(awaiting.after leadingBytes (.reconcile [drainEvent 1 1, drainEvent 5 5])).Complete := by
  have hempty : (Attachment.system leadingBytes).Reachable {} := .init ⟨rfl, rfl, rfl, rfl, rfl⟩
  have hawaiting : (Attachment.system leadingBytes).Reachable awaiting := hempty.step rfl
  refine ⟨hawaiting.step rfl, by decide +kernel, by decide +kernel, by decide +kernel, ?_⟩
  rintro (hpaused | hall)
  · exact absurd hpaused (by decide +kernel)
  · exact absurd (hall 5 (by decide +kernel)) (by decide +kernel)

/-- The second event is refused, and a page brings the first two. -/
def caughtUp : Attachment :=
  (Attachment.after leadingBytes {} (drainCall 2 2)).after leadingBytes
    (.reconcile [drainEvent 1 1, drainEvent 2 2])

theorem decodes_twoEvents : ∀ event ∈ [drainEvent 1 1, drainEvent 2 2],
    decode leadingBytes (event.encode leadingBytes) = .ok event ∧ event.Consistent := by
  refine forall_mem_cons.2 ⟨⟨rfl, ?_⟩, forall_mem_singleton.2 ⟨rfl, ?_⟩⟩
  · rintro _ _ _ ⟨⟩
  · rintro _ _ _ ⟨⟩

theorem not_admits_drainCall_two {event : RemoteControlEventV1}
    (h : decode leadingBytes ((drainEvent 2 2).encode leadingBytes) = .ok event) :
    ¬({} : AttachmentContinuityState).ledger.Admits event.header := by
  cases (decodes_twoEvents _ (by decide)).1.symm.trans h
  intro hadmits
  exact absurd hadmits.seq (by decide)

theorem applied_in_order_caughtUp : caughtUp.applied = [1, 2] ∧ caughtUp.InOrder := by
  refine ⟨by decide +kernel, Attachment.applied_in_order
    (.step (.step (.init ⟨rfl, rfl, rfl, rfl, rfl⟩) ?_ rfl) ?_ rfl)⟩
  · exact fun event hdecode hadmits => absurd hadmits (not_admits_drainCall_two hdecode)
  · intro event hmem event' hdecode
    cases (decodes_twoEvents event hmem).1.symm.trans hdecode
    exact (decodes_twoEvents event hmem).2

theorem resumed_complete_caughtUp :
    caughtUp.state.operationsPaused = false ∧ caughtUp.refused = [2] ∧ caughtUp.Complete := by
  refine ⟨by decide +kernel, by decide +kernel, Attachment.resumed_complete
    (.step (.step (.init ⟨rfl, rfl, rfl, rfl, rfl⟩) ?_ rfl) ?_ rfl)⟩
  · exact .inr fun event hdecode hadmits => absurd hadmits (not_admits_drainCall_two hdecode)
  · refine .inl fun n hn => ?_
    obtain rfl : n = 2 := List.mem_singleton.1 hn
    refine ⟨[drainEvent 1 1, drainEvent 2 2], by decide +kernel, ?_, by decide +kernel⟩
    exact ⟨by decide +kernel, by decide +kernel, by decide +kernel, by decide +kernel,
      by decide +kernel, fun event hmem => ⟨event, decodes_twoEvents event hmem⟩⟩

end FlyCockpit.Continuity

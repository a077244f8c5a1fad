-- SUMMARY: Two row lists that verify against one sealed head are suffixes of each other.
import Mathlib.Data.List.Induction
import Mathlib.Data.List.Nodup
import FlyCockpit.Audit.Verify

/-!
# Tamper evidence

The MAC of a row fixes its body, the body fixes the index columns and the MAC of the row in front.
So the sealed head fixes the whole log from its end to where it starts, and it may start behind
sequence number 1 only under a checkpoint that names the missing prefix.
-/

namespace FlyCockpit.Audit

open List

/-- Rows as `parse_entry_row` returns them, in any order. -/
structure ParsedRows where
  rows : List ComputerAuditEntryRow
  stored : ∀ row ∈ rows, row.Stored

/-- The keys and messages the MACs of some rows are computed from. -/
def signedInputs (keys : UInt32 → Option Bytes) (rows : List ComputerAuditEntryRow) :
    List (Bytes × Bytes) :=
  rows.filterMap fun row => (keys row.keyVersion).map fun key =>
    (key, entryMacDomain ++ [0] ++ row.entryBytes.val)

/-- `HMAC` tells these inputs apart. -/
def Crypto.InjectiveOn (crypto : Crypto) (inputs : List (Bytes × Bytes)) : Prop :=
  ∀ p ∈ inputs, ∀ q ∈ inputs, crypto.hmac p.1 p.2 = crypto.hmac q.1 q.2 → p = q

theorem Crypto.InjectiveOn.mono {crypto : Crypto} {inputs inputs' : List (Bytes × Bytes)}
    (h : crypto.InjectiveOn inputs) (hsub : inputs' ⊆ inputs) : crypto.InjectiveOn inputs' :=
  fun p hp q hq => h p (hsub hp) q (hsub hq)

/-- Rows that do not start at sequence number 1 hold a checkpoint of the prefix in front of them. -/
def StartsAnchored (rows : List ComputerAuditEntryRow) : Prop :=
  ∀ first ∈ rows.head?, first.sequence ≠ 1 → ∃ row ∈ rows, ∃ entry,
    authenticatedEntry row = some entry ∧ entry.eventKind = .pruneCheckpoint ∧
      entry.monotonicNanos.toNat + 1 = first.sequence.toNat

variable {crypto : Crypto} {keys : UInt32 → Option Bytes} {head : ComputerAuditSealedHeadV1}
  {rows rows' : List ComputerAuditEntryRow} {start stop : UInt64 × Block 32}
  {row : ComputerAuditEntryRow} {previousSequence : UInt64} {previousMac : Block 32}
  {r : UInt64 × Block 32} {entries : List ChainEntry}

/-! ## Accepted rows, from the end -/

theorem checkEntries_append {front back : List ChainEntry} :
    checkEntries crypto keys previousSequence previousMac (previousSequence, previousMac)
        (front ++ back) = .ok r ↔
      ∃ p, checkEntries crypto keys previousSequence previousMac (previousSequence, previousMac)
          front = .ok p ∧ checkEntries crypto keys p.1 p.2 p back = .ok r := by
  induction front generalizing previousSequence previousMac with
  | nil =>
    refine ⟨fun h => ⟨_, rfl, h⟩, ?_⟩
    rintro ⟨p, hp, h⟩
    obtain rfl := Except.ok.inj hp
    exact h
  | cons entry front ih =>
    simp only [cons_append, checkEntries_cons_eq_ok, ih]
    constructor
    · rintro ⟨hentry, p, hp, h⟩
      exact ⟨p, ⟨hentry, hp⟩, h⟩
    · rintro ⟨p, ⟨hentry, hp⟩, h⟩
      exact ⟨hentry, p, hp, h⟩

/-- The rows are linked, signed and authenticated from some start to an end. -/
structure Linked (crypto : Crypto) (keys : UInt32 → Option Bytes) (start stop : UInt64 × Block 32)
    (rows : List ComputerAuditEntryRow) : Prop where
  authenticated : ∀ row ∈ rows, (authenticatedEntry row).isSome
  accepted : checkEntries crypto keys start.1 start.2 start (chainEntries rows) = .ok stop

theorem Linked.concat (h : Linked crypto keys start stop (rows ++ [row])) :
    ∃ p entry key, Linked crypto keys start p rows ∧ authenticatedEntry row = some entry ∧
      entry.sequence = p.1 + 1 ∧ entry.previousMac = p.2 ∧ keys row.keyVersion = some key ∧
      entryMac crypto key row.entryBytes = row.mac ∧ stop = (row.sequence, row.mac) := by
  obtain ⟨entry, hentry⟩ := Option.isSome_iff_exists.1
    (h.authenticated row (mem_append_right _ mem_cons_self))
  have haccepted := h.accepted
  rw [chainEntries, map_append, checkEntries_append] at haccepted
  obtain ⟨p, hfront, hlast⟩ := haccepted
  obtain ⟨hrow, hstop⟩ := checkEntries_cons_eq_ok.1 hlast
  obtain ⟨decoded, key, hdecode, -, hnext, hmac, hkey, hsigned, -⟩ := checkEntry_eq_ok.1 hrow
  obtain ⟨hdecode', -, -, -, hversion⟩ := authenticatedEntry_eq_some.1 hentry
  obtain rfl : decoded = entry := Except.ok.inj (hdecode.symm.trans hdecode')
  refine ⟨p, decoded, key, ⟨fun r hr => h.authenticated r (mem_append_left _ hr), hfront⟩,
    hentry, hnext, hmac, hversion ▸ hkey, hsigned, (Except.ok.inj hstop).symm⟩

/-- The body and the MAC of an authenticated row are the whole row. -/
theorem row_ext {row' : ComputerAuditEntryRow} {entry entry' : ComputerAuditEntryV1}
    (h : authenticatedEntry row = some entry) (h' : authenticatedEntry row' = some entry')
    (hbytes : row.entryBytes = row'.entryBytes) (hmac : row.mac = row'.mac) :
    row = row' ∧ entry = entry' := by
  obtain ⟨hdecode, hsequence, hkind, hproposal, hversion⟩ := authenticatedEntry_eq_some.1 h
  obtain ⟨hdecode', hsequence', hkind', hproposal', hversion'⟩ := authenticatedEntry_eq_some.1 h'
  rw [← hbytes, hdecode] at hdecode'
  obtain rfl := Except.ok.inj hdecode'
  obtain ⟨sequence, entryBytes, mac, eventKind, proposalId, keyVersion⟩ := row
  obtain ⟨sequence', entryBytes', mac', eventKind', proposalId', keyVersion'⟩ := row'
  dsimp only at *
  subst hbytes hmac hsequence hsequence' hkind hkind' hproposal hproposal' hversion hversion'
  exact ⟨rfl, rfl⟩

theorem mem_signedInputs {key : Bytes} (hrow : row ∈ rows) (hkey : keys row.keyVersion = some key) :
    (key, entryMacDomain ++ [0] ++ row.entryBytes.val) ∈ signedInputs keys rows := by
  rw [signedInputs, mem_filterMap]
  exact ⟨row, hrow, by rw [hkey]; rfl⟩

/-- Linked rows that end with the same MAC agree as far back as both go. -/
theorem Linked.suffix {start' stop' : UInt64 × Block 32}
    (hinjective : crypto.InjectiveOn (signedInputs keys (rows ++ rows')))
    (h : Linked crypto keys start stop rows) (h' : Linked crypto keys start' stop' rows')
    (hmac : stop.2 = stop'.2) : rows <:+ rows' ∨ rows' <:+ rows := by
  -- The induction is on the rows from the end; the other list loses its last row as well.
  induction rows using List.reverseRecOn generalizing rows' stop stop' with
  | nil => exact .inl (nil_suffix)
  | append_singleton rows row ih =>
    obtain rfl | ⟨rows', row', rfl⟩ := eq_nil_or_concat' rows'
    · exact .inr (nil_suffix)
    · obtain ⟨p, entry, key, hrows, hentry, -, hprevious, hkey, hsigned, rfl⟩ := h.concat
      obtain ⟨p', entry', key', hrows', hentry', -, hprevious', hkey', hsigned', rfl⟩ := h'.concat
      have hinputs := hinjective _ (mem_signedInputs (by simp) hkey) _
        (mem_signedInputs (by simp) hkey') (hsigned.trans (hmac.trans hsigned'.symm))
      have hbytes : row.entryBytes = row'.entryBytes :=
        Subtype.ext (append_cancel_left (congrArg Prod.snd hinputs))
      obtain ⟨rfl, rfl⟩ := row_ext hentry hentry' hbytes hmac
      have hfewer : crypto.InjectiveOn (signedInputs keys (rows ++ rows')) := by
        refine hinjective.mono fun p hp => ?_
        simp only [signedInputs, filterMap_append, mem_append] at hp ⊢
        exact hp.imp .inl .inl
      have hconcat : ∀ {l l' : List ComputerAuditEntryRow}, l <:+ l' → l ++ [row] <:+ l' ++ [row] := by
        rintro l _ ⟨front, rfl⟩
        exact ⟨front, (append_assoc front l [row]).symm⟩
      exact (ih hfewer hrows hrows' (hprevious.symm.trans hprevious')).imp hconcat hconcat

/-- Without a wrap of the sequence numbers accepted entries are in order. -/
theorem ordered_of_checkEntries {confirmed : UInt64 × Block 32}
    (h : checkEntries crypto keys previousSequence previousMac confirmed entries = .ok r)
    (hfits : ∀ e ∈ entries, e.sequence.FitsI64) :
    entries.Pairwise (fun a b => a.sequence < b.sequence) ∧
      (previousSequence.FitsI64 → ∀ e ∈ entries, previousSequence < e.sequence) := by
  induction entries generalizing previousSequence previousMac confirmed with
  | nil => exact ⟨.nil, fun _ _ he => absurd he not_mem_nil⟩
  | cons entry entries ih =>
    obtain ⟨hentry, hrest⟩ := checkEntries_cons_eq_ok.1 h
    obtain ⟨hfits₁, hfits⟩ := forall_mem_cons.1 hfits
    obtain ⟨hordered, hbehind⟩ := ih hrest hfits
    refine ⟨pairwise_cons.2 ⟨hbehind hfits₁, hordered⟩, fun hprevious => ?_⟩
    obtain ⟨decoded, key, -, hsequence, hnext, -⟩ := checkEntry_eq_ok.1 hentry
    have hlt : previousSequence < entry.sequence := by
      rw [← hsequence, hnext, UInt64.lt_iff_toNat_lt, UInt64.toNat_add_one hprevious]
      exact Nat.lt_succ_self _
    exact forall_mem_cons.2 ⟨hlt, fun e he => UInt64.lt_trans hlt (hbehind hfits₁ e he)⟩

/-- Rows of one log have different sequence numbers. -/
theorem Linked.eq_of_sequence (h : Linked crypto keys start stop rows)
    (hstored : ∀ row ∈ rows, row.Stored) {a b : ComputerAuditEntryRow} (ha : a ∈ rows) (hb : b ∈ rows)
    (hsequence : a.sequence = b.sequence) : a = b := by
  have hfits : ∀ e ∈ chainEntries rows, e.sequence.FitsI64 := by
    intro e he
    obtain ⟨row, hrow, rfl⟩ := mem_map.1 he
    exact (hstored row hrow).2.1
  have hordered := pairwise_map.1 (ordered_of_checkEntries h.accepted hfits).1
  have hnodup : (rows.map (·.sequence)).Nodup :=
    pairwise_map.2 (hordered.imp fun hlt => UInt64.ne_of_lt hlt)
  exact inj_on_of_nodup_map hnodup ha hb hsequence

/-! ## Verified rows -/

theorem linked_of_verified (h : (verifyWith crypto keys (some head) (some rows)).status = .verified) :
    ∃ start, chainStart (chainEntries rows) = some start ∧
      Linked crypto keys start (head.confirmedSequence, head.confirmedMac) rows := by
  unfold verifyWith at h
  split_ifs at h with hrows
  · have hpending := verifyChain_verified h
    have hconfirmed : confirmedBy crypto keys (chainEntries rows) =
        .ok (head.confirmedSequence, head.confirmedMac) := by
      refine (verifyChain_usable hpending).1 ?_
      rw [show (verifyChain crypto keys (some head) (some (chainEntries rows))).status = _ from h]
      rfl
    unfold confirmedBy at hconfirmed
    cases hstart : chainStart (chainEntries rows) with
    | none =>
      rw [hstart] at hconfirmed
      cases hconfirmed
    | some start =>
      rw [hstart] at hconfirmed
      refine ⟨start, rfl, all_eq_true.1 hrows, ?_⟩
      cases rows with
      | nil =>
        obtain rfl := Option.some.inj hstart
        exact hconfirmed
      | cons row rows => exact checkEntries_cons_eq_ok.2 (checkEntries_cons_eq_ok.1 hconfirmed)
  · cases h

theorem pruneAnchorMac_eq_some {firstSequence : UInt64}
    {anchor : Option (Block 32)} {mac : Block 32}
    (h : pruneAnchorMac firstSequence entries anchor = some mac) :
    anchor = some mac ∨ ∃ entry ∈ entries, ∃ decoded,
      ComputerAuditEntryV1.decode entry.entryBytes = .ok decoded ∧
        decoded.eventKind = .pruneCheckpoint ∧
        decoded.monotonicNanos.saturatingAdd 1 = firstSequence := by
  induction entries generalizing anchor with
  | nil => exact .inl h
  | cons entry entries ih =>
    rw [pruneAnchorMac] at h
    cases hdecode : ComputerAuditEntryV1.decode entry.entryBytes with
    | error e =>
      rw [hdecode] at h
      cases h
    | ok decoded =>
      rw [hdecode] at h
      dsimp only at h
      split_ifs at h with hcheckpoint
      · exact .inr ⟨entry, mem_cons_self, decoded, hdecode, hcheckpoint⟩
      · refine (ih h).imp_right ?_
        rintro ⟨e, he, hfound⟩
        exact ⟨e, mem_cons_of_mem entry he, hfound⟩

theorem startsAnchored_of_linked
    (hstart : chainStart (chainEntries rows) = some start) (h : Linked crypto keys start stop rows)
    (hstored : ∀ row ∈ rows, row.Stored) : StartsAnchored rows := by
  cases rows with
  | nil => exact fun _ hfirst => absurd hfirst.symm (Option.some_ne_none _)
  | cons first rest =>
    intro row hrow hne
    obtain rfl := Option.some.inj hrow
    obtain ⟨hfirst, -⟩ := checkEntries_cons_eq_ok.1 h.accepted
    obtain ⟨decoded, key, hdecode, hsequence, hnext, -⟩ := checkEntry_eq_ok.1 hfirst
    have hdecode' : ComputerAuditEntryV1.decode first.entryBytes = .ok decoded := hdecode
    rw [chainEntries, map_cons, chainStart] at hstart
    simp only [hdecode'] at hstart
    split_ifs at hstart with hlate
    · obtain ⟨mac, hanchor, rfl⟩ := Option.map_eq_some_iff.1 hstart
      obtain hnone | ⟨entry, hentry, checkpoint, hcheckpoint, hkind, hend⟩ :=
        pruneAnchorMac_eq_some hanchor
      · exact absurd hnone.symm (Option.some_ne_none _)
      · have hentry : entry ∈ chainEntries (first :: rest) := hentry
        obtain ⟨row, hrow, rfl⟩ := mem_map.1 hentry
        obtain ⟨body, hbody⟩ := Option.isSome_iff_exists.1 (h.authenticated row hrow)
        obtain rfl : body = checkpoint :=
          Except.ok.inj ((authenticatedEntry_eq_some.1 hbody).1.symm.trans hcheckpoint)
        refine ⟨row, hrow, body, hbody, hkind, ?_⟩
        rw [hsequence] at hend
        exact UInt64.toNat_of_saturatingAdd_one hend (hstored first mem_cons_self).2.1
    · -- The first row continues the empty log.
      obtain rfl := Option.some.inj hstart
      exact absurd (hsequence.symm.trans hnext) hne

/-- Exactly the empty log confirms sequence number 0. -/
theorem eq_nil_iff_of_linked
    (hstart : chainStart (chainEntries rows) = some start) (h : Linked crypto keys start stop rows)
    (hstored : ∀ row ∈ rows, row.Stored) : rows = [] ↔ stop.1 = 0 := by
  constructor
  · rintro rfl
    obtain rfl := Option.some.inj hstart
    rw [← Except.ok.inj h.accepted]
  · intro hzero
    obtain hnil | ⟨front, row, rfl⟩ := eq_nil_or_concat' rows
    · exact hnil
    · obtain ⟨-, -, -, -, -, -, -, -, -, rfl⟩ := h.concat
      have hpos := (hstored row (by simp)).1
      rw [show row.sequence = 0 from hzero] at hpos
      exact absurd hpos (by decide)

/-- Any two row lists that verify against one sealed head agree: one is a suffix of the other, rows
with the same sequence number are the same, and a list that does not start at sequence number 1
holds the checkpoint of the prefix in front of it. -/
theorem verified_rows_agree (crypto : Crypto) (keys : UInt32 → Option Bytes)
    (head : ComputerAuditSealedHeadV1) (a b : ParsedRows)
    (hinjective : crypto.InjectiveOn (signedInputs keys (a.rows ++ b.rows)))
    (ha : (verifyWith crypto keys (some head) (some a.rows)).status = .verified)
    (hb : (verifyWith crypto keys (some head) (some b.rows)).status = .verified) :
    (a.rows <:+ b.rows ∨ b.rows <:+ a.rows) ∧
      (∀ row ∈ a.rows, ∀ row' ∈ b.rows, row.sequence = row'.sequence → row = row') ∧
      (a.rows = [] ↔ b.rows = []) ∧ StartsAnchored a.rows ∧ StartsAnchored b.rows := by
  obtain ⟨start, hstart, hlinked⟩ := linked_of_verified ha
  obtain ⟨start', hstart', hlinked'⟩ := linked_of_verified hb
  have hsuffix := hlinked.suffix hinjective hlinked' rfl
  have hempty : a.rows = [] ↔ b.rows = [] :=
    (eq_nil_iff_of_linked hstart hlinked a.stored).trans
      (eq_nil_iff_of_linked hstart' hlinked' b.stored).symm
  refine ⟨hsuffix, fun row hrow row' hrow' hsequence => ?_, hempty,
    startsAnchored_of_linked hstart hlinked a.stored, startsAnchored_of_linked hstart' hlinked' b.stored⟩
  obtain hsuffix | hsuffix := hsuffix
  · exact hlinked'.eq_of_sequence b.stored (hsuffix.subset hrow) hrow' hsequence
  · exact hlinked.eq_of_sequence a.stored hrow (hsuffix.subset hrow') hsequence

/-! ## A pruned log -/

/-- A MAC that spells the sequence number of the body. -/
def sequenceCrypto : Crypto := ⟨fun _ message => .cut message 39 32⟩

def signedRow (entry : ComputerAuditEntryV1) : ComputerAuditEntryRow where
  sequence := entry.sequence
  entryBytes := entry.encode
  mac := entryMac sequenceCrypto [] entry.encode
  eventKind := entry.eventKind.asByte
  proposalId := entry.proposalId
  keyVersion := entry.keyVersion

def firstRow : ComputerAuditEntryRow := signedRow (plainEntry 1 (.zero _))

/-- The checkpoint behind the first row names it as the pruned prefix. -/
def secondRow : ComputerAuditEntryRow :=
  signedRow (buildPruneCheckpointEntry
    { operationId := .fill 16 1, prefixStart := 1, prefixEnd := 1, firstMac := firstRow.mac,
      lastMac := firstRow.mac, exportId := .fill 16 1, exportDigest := .fill 32 1,
      priorCheckpointDigest := .fill 32 1, recordDigest := .fill 32 1 } 2 firstRow.mac 1 0)

def wholeLog : ParsedRows := ⟨[firstRow, secondRow], by decide +kernel⟩

def prunedLog : ParsedRows := ⟨[secondRow], by decide +kernel⟩

def sealedSecond : ComputerAuditSealedHeadV1 := .confirmedOnly 1 2 secondRow.mac 1 (.zero _)

theorem verified_rows_agree_pruned :
    (prunedLog.rows <:+ wholeLog.rows ∨ wholeLog.rows <:+ prunedLog.rows) ∧
      (∀ row ∈ prunedLog.rows, ∀ row' ∈ wholeLog.rows, row.sequence = row'.sequence → row = row') ∧
      (prunedLog.rows = [] ↔ wholeLog.rows = []) ∧ StartsAnchored prunedLog.rows ∧
      StartsAnchored wholeLog.rows := by
  have hinjective : sequenceCrypto.InjectiveOn
      (signedInputs (fun _ => some []) (prunedLog.rows ++ wholeLog.rows)) := by
    unfold Crypto.InjectiveOn
    decide +kernel
  exact verified_rows_agree sequenceCrypto (fun _ => some []) sealedSecond prunedLog wholeLog
    hinjective (by decide +kernel) (by decide +kernel)

end FlyCockpit.Audit

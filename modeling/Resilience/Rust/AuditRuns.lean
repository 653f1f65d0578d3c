import Resilience.Rust.AuditLedger

/-!
# Runs of the audit ledger

One live `AuditLedger` at a time, on a file that is absent at first: appends that succeed, appends
that fail when a part of their line has reached the file, and reopenings.

The line of a failed append stays in the file as far as it got, while the ledger keeps its last
signature. As long as nothing of any such line is left, and what is appended is read back, every
reopening succeeds and `verify` counts the appends that succeeded (`verify_of_clean_run`, and
`verify_of_honest_run` without failures); `exists_reopen_error` fails one append after one byte.
-/

namespace Resilience.Rust

variable {ν F : Type}

/-- The file, the ledger open on it, and the signatures that `append` has returned. -/
structure AuditStore where
  file : Option (List UInt8)
  ledger : AuditLedger
  returned : List String

inductive AuditOp (ν F : Type)
  | append (now : String) (input : AuditRecordInput ν F)
  /-- `append` returns an error; `none` if the file could not be opened, else `some n` if `n` bytes
  of the line have reached it. -/
  | fail (now : String) (input : AuditRecordInput ν F) (written : Option ℕ)
  /-- The ledger is dropped and opened again. -/
  | reopen

namespace AuditOp

/-- An operation that does not fail. -/
def Succeeds : AuditOp ν F → Prop
  | fail _ _ _ => False
  | _ => True

/-- An operation that leaves no part of a line in the file. -/
def Clean : AuditOp ν F → Prop
  | fail _ _ written => written.getD 0 = 0
  | _ => True

/-- What the operation appends is read back. -/
def ReadsBack (S : SerdeJson ν F) : AuditOp ν F → Prop
  | append now input => input.ReadsBack S now
  | _ => True

theorem Succeeds.clean {op : AuditOp ν F} (h : op.Succeeds) : op.Clean := by
  cases op with
  | fail now input written => exact h.elim
  | _ => trivial

/-- The appends that succeed. -/
def isAppend : AuditOp ν F → Bool
  | append _ _ => true
  | _ => false

end AuditOp

namespace AuditStore

variable (S : SerdeJson ν F) (hmac : Hmac)

/-- The ledger that is opened on an absent file. -/
def create (key : String) : AuditStore := ⟨none, ⟨key, ""⟩, []⟩

/-- One operation. A failed append has written a proper prefix of its line. -/
def step (st : AuditStore) : AuditOp ν F → Except AuditError AuditStore
  | .append now input =>
    let r := st.ledger.record S hmac now input
    .ok {
      file := some (st.file.getD [] ++ r.line S)
      ledger := st.ledger.appended S hmac now input
      returned := st.returned ++ [r.sig] }
  | .fail _ _ none => .ok st
  | .fail now input (some n) =>
    let r := st.ledger.record S hmac now input
    .ok { st with file := some (st.file.getD [] ++ (r.line S).dropLast.take n) }
  | .reopen =>
    (AuditLedger.openUnder S st.file st.ledger.key).map fun L => { st with ledger := L }

def run (st : AuditStore) (ops : List (AuditOp ν F)) : Except AuditError AuditStore :=
  ops.foldlM (step S hmac) st

/-- `verify`. -/
def verify (st : AuditStore) : Except AuditError VerifyResult :=
  verifyLedgerUnder S hmac st.file st.ledger.key

/-- The records of the file are a chain, signed with the signatures that were returned, and the
ledger knows the last of these. -/
structure Honest (st : AuditStore) (rs : List (AuditRecord ν F)) : Prop where
  holds : Holds S st.file rs
  chained : (scheme S hmac st.ledger.key).Chained "" (rs.map (·.entry S))
  lastSig : st.ledger.lastSig = lastTag "" (rs.map (·.entry S))
  sigs : rs.map (·.sig) = st.returned

variable {S hmac}

theorem honest_create (key : String) : Honest S hmac (create key) [] :=
  ⟨holds_none, trivial, rfl, rfl⟩

theorem Honest.append (hS : S.Lawful) {st : AuditStore} {rs : List (AuditRecord ν F)}
    (h : Honest S hmac st rs) {now : String} {input : AuditRecordInput ν F}
    (hback : input.ReadsBack S now) :
    ∃ st', step S hmac st (.append now input) = .ok st' ∧
      Honest S hmac st' (rs ++ [(st.ledger.record S hmac now input).written S]) := by
  have hrecord : (st.ledger.record S hmac now input).ReadsBack S := hback st.ledger.lastSig _
  refine ⟨_, rfl, h.holds.append hS hrecord, ?_, ?_, ?_⟩
  · rw [List.map_append, List.map_singleton, AuditRecord.entry_written]
    refine Scheme.chained_concat.2 ⟨h.chained, ?_, rfl⟩
    rw [← h.lastSig]
    exact payloadPrevSig_signingPayload S _
  · rw [List.map_append, List.map_singleton, AuditRecord.entry_written, lastTag_concat]
    rfl
  · rw [List.map_append, h.sigs]
    rfl

theorem Honest.fail {st : AuditStore} {rs : List (AuditRecord ν F)} (h : Honest S hmac st rs)
    {now : String} {input : AuditRecordInput ν F} {written : Option ℕ}
    (hclean : (AuditOp.fail now input written).Clean) :
    ∃ st', step S hmac st (.fail now input written) = .ok st' ∧ Honest S hmac st' rs := by
  cases written with
  | none => exact ⟨st, rfl, h⟩
  | some n =>
    obtain rfl : n = 0 := hclean
    refine ⟨_, rfl, ⟨?_, ?_⟩, h.chained, h.lastSig, h.sigs⟩
    · rw [List.take_zero, List.append_nil, ← h.holds.read]
      cases st.file <;> rfl
    · rw [List.take_zero, List.append_nil]
      exact h.holds.terminated

theorem Honest.reopen {st : AuditStore} {rs : List (AuditRecord ν F)} (h : Honest S hmac st rs) :
    ∃ st', step S hmac st .reopen = .ok st' ∧ Honest S hmac st' rs := by
  refine ⟨{ st with ledger := ⟨st.ledger.key, (rs.getLast?.map (·.sig)).getD ""⟩ }, ?_, h.holds,
    h.chained, ?_, h.sigs⟩
  · rw [step, AuditLedger.openUnder, h.holds.read]
    rfl
  · rw [lastTag_eq, List.map_map, List.getLast?_map]
    rfl

/-- One clean step: what the file holds grows by one record when the step is an append. -/
theorem Honest.step (hS : S.Lawful) {st : AuditStore} {rs : List (AuditRecord ν F)}
    (h : Honest S hmac st rs) {op : AuditOp ν F} (hclean : op.Clean) (hback : op.ReadsBack S) :
    ∃ st' rs', AuditStore.step S hmac st op = .ok st' ∧ Honest S hmac st' rs' ∧
      rs'.length = rs.length + op.isAppend.toNat := by
  cases op with
  | append now input =>
    obtain ⟨st', hstep, h'⟩ := h.append hS hback
    exact ⟨st', _, hstep, h', List.length_append⟩
  | fail now input written =>
    obtain ⟨st', hstep, h'⟩ := h.fail hclean
    exact ⟨st', rs, hstep, h', rfl⟩
  | reopen =>
    obtain ⟨st', hstep, h'⟩ := h.reopen
    exact ⟨st', rs, hstep, h', rfl⟩

theorem Honest.run (hS : S.Lawful) {st : AuditStore} {rs : List (AuditRecord ν F)}
    (h : Honest S hmac st rs) {ops : List (AuditOp ν F)} (hclean : ∀ op ∈ ops, op.Clean)
    (hback : ∀ op ∈ ops, op.ReadsBack S) :
    ∃ st' rs', AuditStore.run S hmac st ops = .ok st' ∧ Honest S hmac st' rs' ∧
      rs'.length = rs.length + ops.countP AuditOp.isAppend := by
  induction ops generalizing st rs with
  | nil => exact ⟨st, rs, rfl, h, rfl⟩
  | cons op ops ih =>
    obtain ⟨st₁, rs₁, hstep, h₁, hlen₁⟩ := h.step hS (hclean op (by simp)) (hback op (by simp))
    obtain ⟨st', rs', hrun, h', hlen⟩ :=
      ih h₁ (fun op hop => hclean op (by simp [hop])) fun op hop => hback op (by simp [hop])
    refine ⟨st', rs', ?_, h', ?_⟩
    · rw [AuditStore.run, List.foldlM_cons, hstep]
      exact hrun
    · rw [hlen, hlen₁, List.countP_cons, Nat.add_assoc, Nat.add_comm op.isAppend.toNat]
      cases op.isAppend <;> rfl

theorem Honest.verify {st : AuditStore} {rs : List (AuditRecord ν F)} (h : Honest S hmac st rs) :
    st.verify S hmac = .ok (.ok rs.length) := by
  rw [AuditStore.verify, verifyLedgerUnder, h.holds.read]
  exact congrArg _ (verifyRecords_eq_ok_iff.2 ⟨rfl, h.chained⟩)

theorem Honest.prevSig {st : AuditStore} {rs : List (AuditRecord ν F)} (h : Honest S hmac st rs)
    {i : ℕ} {r : AuditRecord ν F} (hr : rs[i]? = some r) :
    ("" :: st.returned)[i]? = some r.prevSig := by
  have hentry : (rs.map (·.entry S))[i]? = some (r.entry S) := by
    rw [List.getElem?_map, hr]
    rfl
  have hlink := h.chained.getElem?_link hentry
  rw [List.map_map] at hlink
  rw [← h.sigs, ← payloadPrevSig_signingPayload S r]
  exact hlink

end AuditStore

/-- **Honest ledgers verify.** Over appends and reopenings, `verify` counts the appends, and every
record in the file has the signature that the append before it returned. -/
theorem verify_of_honest_run (S : SerdeJson ν F) (hS : S.Lawful) (hmac : Hmac) (key : String)
    (ops : List (AuditOp ν F)) (hops : ∀ op ∈ ops, op.Succeeds)
    (hback : ∀ op ∈ ops, op.ReadsBack S) :
    ∃ st rs, AuditStore.run S hmac (.create key) ops = .ok st ∧
      st.verify S hmac = .ok (.ok (ops.countP AuditOp.isAppend)) ∧
      readRecords S st.file = .ok rs ∧ rs.length = ops.countP AuditOp.isAppend ∧
      ∀ (i : ℕ) (r : AuditRecord ν F), rs[i]? = some r →
        ("" :: st.returned)[i]? = some r.prevSig := by
  obtain ⟨st, rs, hrun, h, hlen⟩ :=
    (AuditStore.honest_create key).run hS (fun op hop => (hops op hop).clean) hback
  rw [List.length_nil, Nat.zero_add] at hlen
  exact ⟨st, rs, hrun, hlen ▸ h.verify, h.holds.read, hlen, fun i r hr => h.prevSig hr⟩

/-- Two appends, the second after a reopening and with a confidence that is not finite. -/
theorem verify_of_honest_run_two :
    ∃ st, AuditStore.run SerdeJson.integers Hmac.sample (.create "k")
        [.append "t" sampleInput, .reopen,
          .append "u" { sampleInput with confidence := some none }] =
        .ok st ∧ st.verify SerdeJson.integers Hmac.sample = .ok (.ok 2) := by
  obtain ⟨st, -, hrun, hverify, -⟩ := verify_of_honest_run SerdeJson.integers
    SerdeJson.lawful_integers Hmac.sample "k"
    [.append "t" sampleInput, .reopen, .append "u" { sampleInput with confidence := some none }]
    (by simp [AuditOp.Succeeds])
    (by simp [AuditOp.ReadsBack, AuditRecordInput.readsBack_integers])
  exact ⟨st, hrun, hverify⟩

/-- **A failed append leaves the ledger usable, as long as it leaves no part of its line** and what
succeeds is read back: every reopening succeeds, and `verify` counts the appends that succeeded. -/
theorem verify_of_clean_run (S : SerdeJson ν F) (hS : S.Lawful) (hmac : Hmac) (key : String)
    (ops : List (AuditOp ν F)) (hclean : ∀ op ∈ ops, op.Clean)
    (hback : ∀ op ∈ ops, op.ReadsBack S) :
    ∃ st, AuditStore.run S hmac (.create key) ops = .ok st ∧
      st.verify S hmac = .ok (.ok (ops.countP AuditOp.isAppend)) := by
  obtain ⟨st, rs, hrun, h, hlen⟩ := (AuditStore.honest_create key).run hS hclean hback
  rw [List.length_nil, Nat.zero_add] at hlen
  exact ⟨st, hrun, hlen ▸ h.verify⟩

/-- Two appends fail before anything is written, the second on a file that exists. -/
theorem verify_of_clean_run_failed :
    ∃ st, AuditStore.run SerdeJson.integers Hmac.sample (.create "k")
        [.fail "t" sampleInput none, .append "t" sampleInput, .fail "u" sampleInput (some 0),
          .reopen] = .ok st ∧
      st.verify SerdeJson.integers Hmac.sample = .ok (.ok 1) :=
  verify_of_clean_run _ SerdeJson.lawful_integers _ _ _ (by simp [AuditOp.Clean])
    (by simp [AuditOp.ReadsBack, AuditRecordInput.readsBack_integers])

/-- An append fails after one byte of its line, and the ledger cannot be opened again. -/
theorem exists_reopen_error :
    ∃ (S : SerdeJson ℤ (Option ℤ)) (hmac : Hmac) (key : String) (ops : List (AuditOp ℤ (Option ℤ))),
      S.Lawful ∧ (AuditStore.run S hmac (.create key) ops).toOption.isNone := by
  refine ⟨SerdeJson.integers, Hmac.sample, "k", [.fail "t" sampleInput (some 1), .reopen],
    SerdeJson.lawful_integers, ?_⟩
  decide +kernel

end Resilience.Rust

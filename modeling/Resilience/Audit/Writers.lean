import Resilience.Python.AuditRuns
import Resilience.Rust.AuditLedger
import Resilience.TypeScript.AuditLedger

/-!
# Several ledgers open on one file

Any number of `AuditLedger` instances, with one key, on a file that is absent at first. Each of them
looks the last signature up when it is opened, and from then on knows only the signatures of its own
appends.

A `Port` is what one implementation does with the file, and `Port.Refines` says that it keeps a
chain there. A run of instances is then a run of `Shared`, and `Shared.chained_run_iff` says when
the chain stays whole: exactly when every append is by an instance that has seen all of the file
(`verify_of_interleaving`). Two instances that append once each break it
(`exists_interleaving_tampered`).
-/

namespace Resilience

/-! ## Ports -/

/-- What a port of the ledger does with a file: `verify` gives the count, if it finds nothing. -/
structure Port (File Ledger C E : Type) where
  absent : File
  openLedger : File → Except E Ledger
  append : Ledger → File → C → Except E (Ledger × File)
  verify : File → Except E (Option ℕ)

/-- The file, and the instances that are open on it. -/
structure Fleet (I File Ledger : Type) where
  file : File
  ledgers : I → Ledger

/-- What is appended satisfies `Takes`. -/
def WriterOp.All {I C : Type} (Takes : C → Prop) : WriterOp I C → Prop
  | .sync _ => True
  | .append _ c => Takes c

theorem WriterOp.all_true {I C : Type} (op : WriterOp I C) : op.All fun _ => True := by
  cases op <;> trivial

/-- The number of appends. -/
def appends {I C : Type} : List (WriterOp I C) → ℕ
  | [] => 0
  | .sync _ :: ops => appends ops
  | .append _ _ :: ops => appends ops + 1

namespace Port

section Runs

variable {I File Ledger C E : Type} [DecidableEq I] (port : Port File Ledger C E)

/-- One call: an instance is opened, or appends. -/
def step (s : Fleet I File Ledger) : WriterOp I C → Except E (Fleet I File Ledger)
  | .sync i => do
    let ledger ← port.openLedger s.file
    return { s with ledgers := Function.update s.ledgers i ledger }
  | .append i c => do
    let (ledger, file) ← port.append (s.ledgers i) s.file c
    return { file, ledgers := Function.update s.ledgers i ledger }

/-- All instances are opened on the absent file; after the calls the file is verified. -/
def verifyAfter (ops : List (WriterOp I C)) : Except E (Option ℕ) := do
  let ledger ← port.openLedger port.absent
  let s ← ops.foldlM port.step { file := port.absent, ledgers := fun _ => ledger }
  port.verify s.file

end Runs

/-- The port keeps a chain in its file, when all that is appended satisfies `Takes`: `Holds` says of
what entries, and `Knows` what the last tag is for a ledger. -/
structure Refines {File Ledger C E P T : Type} (port : Port File Ledger C E) (S : Scheme P T)
    (payload : C → T → P) (Takes : C → Prop) (Holds : File → List (Entry P T) → Prop)
    (Knows : Ledger → T → Prop) : Prop where
  absent : Holds port.absent []
  openLedger : ∀ {file es}, Holds file es →
    ∃ L, port.openLedger file = .ok L ∧ Knows L (lastTag S.genesis es)
  append : ∀ {file es L t} (c : C), Takes c → Holds file es → Knows L t →
    ∃ L' file', port.append L file c = .ok (L', file') ∧
      Holds file' (es ++ [S.entry (payload c t)]) ∧ Knows L' (S.sign (payload c t))
  verify : ∀ {file es}, Holds file es →
    ∃ result, port.verify file = .ok result ∧
      (result = some es.length ↔ S.Chained S.genesis es)

section Simulation

variable {I File Ledger C E P T : Type} [DecidableEq I] {port : Port File Ledger C E}
  {S : Scheme P T} {payload : C → T → P} {Takes : C → Prop}
  {Holds : File → List (Entry P T) → Prop} {Knows : Ledger → T → Prop}

/-- The instances and the file, as writers of a shared log. -/
def Simulates (Holds : File → List (Entry P T) → Prop) (Knows : Ledger → T → Prop)
    (s : Fleet I File Ledger) (shared : Shared I P T) : Prop :=
  Holds s.file shared.log ∧ ∀ i, Knows (s.ledgers i) (shared.cache i)

theorem Refines.step (h : port.Refines S payload Takes Holds Knows) {s : Fleet I File Ledger}
    {shared : Shared I P T} (hsim : Simulates Holds Knows s shared) {op : WriterOp I C}
    (hop : op.All Takes) :
    ∃ s', port.step s op = .ok s' ∧ Simulates Holds Knows s' (shared.step S payload op) := by
  obtain ⟨hholds, hknows⟩ := hsim
  cases op with
  | sync i =>
    obtain ⟨L, hopen, hL⟩ := h.openLedger hholds
    refine ⟨{ s with ledgers := Function.update s.ledgers i L }, ?_, hholds, fun j => ?_⟩
    · rw [Port.step, hopen]
      rfl
    · by_cases hj : j = i
      · subst hj
        simpa [Shared.step] using hL
      · simpa [Shared.step, hj] using hknows j
  | append i c =>
    obtain ⟨L, file, happend, hfile, hL⟩ := h.append c hop hholds (hknows i)
    refine ⟨{ file, ledgers := Function.update s.ledgers i L }, ?_, hfile, fun j => ?_⟩
    · rw [Port.step, happend]
      rfl
    · by_cases hj : j = i
      · subst hj
        simpa [Shared.step, Scheme.entry] using hL
      · simpa [Shared.step, hj] using hknows j

theorem Refines.run (h : port.Refines S payload Takes Holds Knows) {s : Fleet I File Ledger}
    {shared : Shared I P T} (hsim : Simulates Holds Knows s shared) {ops : List (WriterOp I C)}
    (hops : ∀ op ∈ ops, op.All Takes) :
    ∃ s', ops.foldlM port.step s = .ok s' ∧
      Simulates Holds Knows s' (shared.run S payload ops) := by
  induction ops generalizing s shared with
  | nil => exact ⟨s, rfl, hsim⟩
  | cons op ops ih =>
    obtain ⟨hop, hops⟩ := List.forall_mem_cons.1 hops
    obtain ⟨s', hstep, hsim'⟩ := h.step hsim hop
    obtain ⟨s'', hrun, hsim''⟩ := ih hsim' hops
    refine ⟨s'', ?_, hsim''⟩
    rw [List.foldlM_cons, hstep]
    exact hrun

theorem length_run (shared : Shared I P T) (ops : List (WriterOp I C)) :
    (shared.run S payload ops).log.length = shared.log.length + appends ops := by
  induction ops generalizing shared with
  | nil => rfl
  | cons op ops ih =>
    rw [Shared.run_cons, ih]
    cases op with
    | sync i => rfl
    | append i c =>
      simp only [Shared.step, List.length_append, List.length_singleton, appends]
      omega

/-- After any calls the file verifies with all appends exactly when every append was by an instance
that had seen the whole file. -/
theorem Refines.verifyAfter_iff (h : port.Refines S payload Takes Holds Knows)
    (hinj : Function.Injective S.sign) (hgen : ∀ p, S.sign p ≠ S.genesis)
    (hlink : ∀ c t, S.IsTag t → S.link (payload c t) = t) {ops : List (WriterOp I C)}
    (hops : ∀ op ∈ ops, op.All Takes) :
    ∃ result, port.verifyAfter ops = .ok result ∧
      (result = some (appends ops) ↔ Shared.SingleWriter Set.univ ops) := by
  obtain ⟨L, hopen, hL⟩ := h.openLedger h.absent
  let shared : Shared I P T := ⟨[], fun _ => S.genesis⟩
  have hsim : Simulates Holds Knows ⟨port.absent, fun _ : I => L⟩ shared := ⟨h.absent, fun _ => hL⟩
  obtain ⟨s, hrun, hholds, -⟩ := h.run hsim hops
  obtain ⟨result, hverify, hresult⟩ := h.verify hholds
  have hcached : Shared.Cached S Set.univ shared :=
    ⟨fun _ _ => rfl, fun i hi => absurd (Set.mem_univ i) hi⟩
  have hlen : (shared.run S payload ops).log.length = appends ops :=
    (length_run shared ops).trans (Nat.zero_add _)
  refine ⟨result, ?_, ?_⟩
  · rw [verifyAfter, hopen]
    show (ops.foldlM port.step _ >>= _) = _
    rw [hrun]
    exact hverify
  · rw [← hlen, hresult]
    exact Shared.chained_run_iff hinj hgen hlink hcached trivial ops

end Simulation

end Port

/-! ## Rust -/

namespace Rust

variable {ν F : Type}

/-- `AuditLedger` on one path, with the key `key`. -/
def port (S : SerdeJson ν F) (hmac : Hmac) (key : String) :
    Port (Option (List UInt8)) AuditLedger (String × AuditRecordInput ν F) AuditError where
  absent := none
  openLedger file := AuditLedger.openUnder S file key
  append L file := fun (now, input) =>
    .ok (L.appended S hmac now input, some (file.getD [] ++ (L.record S hmac now input).line S))
  verify file := (verifyLedgerUnder S hmac file key).map fun
    | .ok count => some count
    | .tampered _ _ => none

theorem port_refines {S : SerdeJson ν F} (hS : S.Lawful) (hmac : Hmac) (key : String) :
    (port S hmac key).Refines (scheme S hmac key)
      (fun c t => signingPayload S (AuditLedger.unsigned ⟨key, t⟩ c.1 c.2))
      (fun c => c.2.ReadsBack S c.1)
      (fun file es => ∃ rs, Holds S file rs ∧ rs.map (·.entry S) = es)
      (fun L t => L = ⟨key, t⟩) where
  absent := ⟨[], holds_none, rfl⟩
  openLedger := by
    rintro file es ⟨rs, hholds, rfl⟩
    refine ⟨⟨key, lastTag "" (rs.map (·.entry S))⟩, ?_, rfl⟩
    show (readRecords S file).map _ = _
    rw [hholds.read, lastTag_eq, List.getLast?_map, List.getLast?_map, Option.map_map]
    rfl
  append := by
    rintro file es L t ⟨now, input⟩ hback ⟨rs, hholds, rfl⟩ rfl
    have hrecord : (AuditLedger.record S hmac ⟨key, t⟩ now input).ReadsBack S := hback t _
    refine ⟨_, _, rfl, ⟨_, hholds.append hS hrecord, ?_⟩, rfl⟩
    rw [List.map_append, List.map_singleton, AuditRecord.entry_written]
    rfl
  verify := by
    rintro file es ⟨rs, hholds, rfl⟩
    have hread : verifyLedgerUnder S hmac file key = .ok (verifyRecords S hmac key rs) := by
      rw [verifyLedgerUnder, hholds.read]
      rfl
    have hok : verifyRecords S hmac key rs = .ok rs.length ↔ _ := verifyRecords_eq_ok_iff
    show ∃ result, (verifyLedgerUnder S hmac file key).map _ = .ok result ∧ _
    rw [hread, List.length_map]
    refine ⟨_, rfl, ?_⟩
    cases hverify : verifyRecords S hmac key rs with
    | ok count =>
      obtain ⟨rfl, hchained⟩ := verifyRecords_eq_ok_iff.1 hverify
      exact iff_of_true rfl hchained
    | tampered i reason =>
      refine iff_of_false (fun h => by cases h) fun hchained => ?_
      rw [hok.2 ⟨rfl, hchained⟩] at hverify
      cases hverify

theorem verifyAfter_iff {I : Type} [DecidableEq I] {S : SerdeJson ν F} (hS : S.Lawful)
    (hprint : Function.Injective fun v : Value ν => S.toString v.doc) {hmac : Hmac} {key : String}
    (hideal : hmac.Ideal (utf8 key.toList))
    {ops : List (WriterOp I (String × AuditRecordInput ν F))}
    (hops : ∀ op ∈ ops, op.All fun c => c.2.ReadsBack S c.1) :
    ∃ result, (port S hmac key).verifyAfter ops = .ok result ∧
      (result = some (appends ops) ↔ Shared.SingleWriter Set.univ ops) := by
  apply (port_refines hS hmac key).verifyAfter_iff
  · exact scheme_sign_injective hideal hprint
  · exact fun v => hideal.ne_empty _
  · exact fun c t _ => payloadPrevSig_signingPayload S _
  · exact hops

end Rust

/-! ## Python -/

namespace Python

open Json

variable {ν : Type}

/-- `AuditLedger` on one path, with the key `key`. -/
def port [DecidableEq ν] (N : Numerals ν) (hmac : Hmac) (key : String) :
    Port (Option Text) (AuditLedger ν) (Units × AuditRecordInput ν) PyError where
  absent := none
  openLedger file := AuditLedger.init N file key
  append L file := fun (now, input) =>
    (L.append N hmac file now input).map fun (_, ledger, file) => (ledger, file)
  verify file := (verifyLedger N hmac file key).map fun result =>
    if result.ok then some result.count else none

theorem port_refines [DecidableEq ν] {N : Numerals ν} (hN : N.Lawful some) (hmac : Hmac)
    (key : String) :
    (port N hmac key).Refines (scheme N hmac key)
      (fun c t => canonical (payloadOf (AuditLedger.unsigned ⟨key, t⟩ c.1 c.2))) (fun _ => True)
      (fun file es => ∃ rs, Holds N file rs ∧ rs.map entry = es)
      (fun L t => L = ⟨key, t⟩ ∧ ∃ s, t = .str s) where
  absent := ⟨[], holds_none N, rfl⟩
  openLedger := by
    rintro file es ⟨rs, hholds, rfl⟩
    exact ⟨_, hholds.init key, rfl, hholds.lastTag⟩
  append := by
    rintro file es L t ⟨now, input⟩ - ⟨rs, hholds, rfl⟩ ⟨rfl, s, rfl⟩
    have hentry : entry (AuditLedger.record N ⟨key, .str s⟩ hmac now input) =
        (scheme N hmac key).entry
          (canonical (payloadOf (AuditLedger.unsigned ⟨key, .str s⟩ now input))) := by
      rw [entry, payloadOf_record, get_sig_record]
      rfl
    have happend : Holds N _ (rs ++ [AuditLedger.record N ⟨key, .str s⟩ hmac now input]) :=
      hholds.append (oneLine_dumps hN _) (loads_dumps hN (nodup_record rfl now input))
        (readable_record now input)
    refine ⟨AuditLedger.appended N ⟨key, .str s⟩ hmac now input, _, ?_, ⟨_, happend, ?_⟩, ?_, ?_⟩
    · show (AuditLedger.append N ⟨key, .str s⟩ hmac file now input).map _ = _
      rw [append_eq]
      rfl
    · rw [List.map_append, List.map_singleton, hentry]
    · rw [AuditLedger.appended, get_sig_record]
      rfl
    · exact ⟨_, rfl⟩
  verify := by
    rintro file es ⟨rs, hholds, rfl⟩
    obtain ⟨result, hverify, hcases, hok⟩ := hholds.verify hmac key
    show ∃ result, (verifyLedger N hmac file key).map _ = .ok result ∧ _
    rw [hverify, List.length_map]
    refine ⟨_, rfl, ?_⟩
    show (if result.ok then some result.count else none) = some rs.length ↔ _
    rcases hcases with rfl | hfalse
    · exact iff_of_true rfl (hok.1 rfl)
    · rw [hfalse]
      exact iff_of_false (fun h => by cases h) fun hc => by simp [hok.2 hc] at hfalse

theorem verifyAfter_iff {I : Type} [DecidableEq I] [DecidableEq ν] {N : Numerals ν}
    (hN : N.Lawful some) {hmac : Hmac} {key : String} (hideal : hmac.Ideal (utf8 key.toList))
    (ops : List (WriterOp I (Units × AuditRecordInput ν))) :
    ∃ result, (port N hmac key).verifyAfter ops = .ok result ∧
      (result = some (appends ops) ↔ Shared.SingleWriter Set.univ ops) := by
  apply (port_refines hN hmac key).verifyAfter_iff
  · exact sign_injective hN hideal
  · exact sign_ne_genesis hideal
  · intro c t ht
    rw [link_canonical, get_prevSig_unsigned]
    rcases ht with rfl | ⟨p, rfl⟩ <;> rfl
  · exact fun op _ => op.all_true

end Python

/-! ## TypeScript -/

namespace TypeScript

open Json

variable {ν : Type}

/-- `AuditLedger` on one path, with the key `key`. -/
def port [DecidableEq ν] (N : Numerals ν) (hmac : Hmac) (key : String) :
    Port (Option Text) (AuditLedger ν) (Units × AuditRecordInput ν) JsError where
  absent := none
  openLedger file := AuditLedger.create N file key
  append L file := fun (now, input) => .ok (L.append N hmac file now input).2
  verify file := (verifyLedger N hmac file key).map fun
    | .ok count => some count
    | .tampered _ _ => none

section Refines

variable {N : Numerals ν} {norm : ν → Option ν} (hN : N.Lawful norm)

theorem Holds.lastTag {file : Option Text} {recs : List (Members ν)} (h : Holds N file recs) :
    ∃ s, Resilience.lastTag (.str []) (recs.map (entry hN)) = .str s := by
  rw [lastTag_eq, List.getLast?_map, List.getLast?_map]
  cases hlast : recs.getLast? with
  | none => exact ⟨[], rfl⟩
  | some rec =>
    obtain ⟨s, hs⟩ := (h.linked rec (List.mem_of_getLast? hlast)).sig
    exact ⟨s, tag_entry hN hs⟩

theorem Holds.create {file : Option Text} {recs : List (Members ν)} (h : Holds N file recs)
    (key : String) :
    AuditLedger.create N file key =
      .ok ⟨key, Resilience.lastTag (.str []) (recs.map (entry hN))⟩ := by
  have hlast : (recs.map Json.obj).getLast? = recs.getLast?.map .obj := List.getLast?_map
  rw [AuditLedger.create, h.read, lastTag_eq, List.getLast?_map, List.getLast?_map]
  dsimp only [bind, Except.bind]
  rw [hlast]
  cases hr : recs.getLast? with
  | none => rfl
  | some rec =>
    obtain ⟨s, hs⟩ := (h.linked rec (List.mem_of_getLast? hr)).sig
    have htag := tag_entry hN hs
    dsimp only [Option.map_some, Option.getD_some]
    rw [hs, htag]
    rfl

theorem port_refines [DecidableEq ν] (hrep : N.Reprints norm) (hmac : Hmac) (key : String) :
    (port N hmac key).Refines (scheme N hmac key)
      (fun c t => signed hN (AuditLedger.unsigned ⟨key, t⟩ c.1 c.2)) (fun _ => True)
      (fun file es => ∃ recs, Holds N file recs ∧ recs.map (entry hN) = es)
      (fun L t => L = ⟨key, t⟩ ∧ ∃ s, t = .str s) where
  absent := ⟨[], holds_none, rfl⟩
  openLedger := by
    rintro file es ⟨recs, hholds, rfl⟩
    exact ⟨_, hholds.create hN key, rfl, hholds.lastTag hN⟩
  append := by
    rintro file es L t ⟨now, input⟩ - ⟨recs, hholds, rfl⟩ ⟨rfl, s, rfl⟩
    have happend : Holds N _
        (recs ++ [stored norm (AuditLedger.record N ⟨key, .str s⟩ hmac now input)]) :=
      hholds.append hN rfl now input
    refine ⟨_, _, rfl, ⟨_, happend, ?_⟩, rfl, _, rfl⟩
    rw [List.map_append, List.map_singleton, entry_stored _ _ _ hN hrep]
  verify := by
    rintro file es ⟨recs, hholds, rfl⟩
    obtain ⟨result, hverify, hchained⟩ := hholds.verify hN hmac key
    show ∃ result, (verifyLedger N hmac file key).map _ = .ok result ∧ _
    rw [hverify, List.length_map]
    refine ⟨_, rfl, Iff.trans ?_ hchained⟩
    cases result with
    | ok count =>
      show some count = some recs.length ↔ _
      rw [Option.some.injEq, VerifyResult.ok.injEq]
    | tampered j reason => exact iff_of_false (fun h => by cases h) fun h => by cases h

include hN in
theorem verifyAfter_iff {I : Type} [DecidableEq I] [DecidableEq ν] (hrep : N.Reprints norm)
    {hmac : Hmac} {key : String} (hideal : hmac.Ideal (utf8 key.toList))
    (ops : List (WriterOp I (Units × AuditRecordInput ν))) :
    ∃ result, (port N hmac key).verifyAfter ops = .ok result ∧
      (result = some (appends ops) ↔ Shared.SingleWriter Set.univ ops) := by
  apply (port_refines hN hrep hmac key).verifyAfter_iff
  · exact sign_injective hideal
  · exact sign_ne_genesis hideal
  · intro c t ht
    rcases ht with rfl | ⟨p, rfl⟩ <;> exact link_signed hN (lookup_unsigned _ c.1 c.2).1
  · exact fun op _ => op.all_true

end Refines

end TypeScript

/-! ## Any interleaving -/

section Interleaving

variable {I ν ν' ν'' F : Type} [DecidableEq I] [DecidableEq ν'] [DecidableEq ν'']

/-- **Several ledgers open on one file.** In each of the three ports: after any calls by any number
of instances on a file that is absent at first, none of which fails, `verify` returns, and it counts
all appends exactly when no instance has appended after another one had, since it was opened or
had itself appended last. What Rust appends has to be read back; Python and TypeScript append JSON
values. -/
theorem verify_of_interleaving (S : Rust.SerdeJson ν F) (hS : S.Lawful)
    (hprint : Function.Injective fun v : Rust.Value ν => S.toString v.doc) (N : Json.Numerals ν')
    (hN : N.Lawful some) (M : Json.Numerals ν'') (norm : ν'' → Option ν'') (hM : M.Lawful norm)
    (hrep : M.Reprints norm) (hmac : Hmac) (key : String) (hideal : hmac.Ideal (utf8 key.toList)) :
    (∀ ops : List (WriterOp I (String × Rust.AuditRecordInput ν F)),
      (∀ op ∈ ops, op.All fun c => c.2.ReadsBack S c.1) →
      ∃ result, (Rust.port S hmac key).verifyAfter ops = .ok result ∧
        (result = some (appends ops) ↔ Shared.SingleWriter Set.univ ops)) ∧
    (∀ ops : List (WriterOp I (Json.Units × Python.AuditRecordInput ν')),
      ∃ result, (Python.port N hmac key).verifyAfter ops = .ok result ∧
        (result = some (appends ops) ↔ Shared.SingleWriter Set.univ ops)) ∧
    ∀ ops : List (WriterOp I (Json.Units × TypeScript.AuditRecordInput ν'')),
      ∃ result, (TypeScript.port M hmac key).verifyAfter ops = .ok result ∧
        (result = some (appends ops) ↔ Shared.SingleWriter Set.univ ops) :=
  ⟨fun _ => Rust.verifyAfter_iff hS hprint hideal, Python.verifyAfter_iff hN hideal,
    TypeScript.verifyAfter_iff hM hrep hideal⟩

/-- An instance appends, another one is opened, and appends. -/
def handover {C : Type} (c : C) : List (WriterOp Bool C) :=
  [.append false c, .sync true, .append true c]

theorem singleWriter_handover {C : Type} (c : C) :
    Shared.SingleWriter Set.univ (handover c) :=
  ⟨Set.mem_univ _, Set.mem_insert .., trivial⟩

/-- Two instances that are open append once each. -/
def race {C : Type} (c : C) : List (WriterOp Bool C) := [.append false c, .append true c]

theorem not_singleWriter_race {C : Type} (c : C) : ¬ Shared.SingleWriter Set.univ (race c) :=
  fun h => Bool.false_ne_true (Set.mem_singleton_iff.1 h.2.1).symm

theorem eq_ok_of_exists {E : Type} {x : Except E (Option ℕ)} {n : ℕ} {P : Prop} (hP : P)
    (h : ∃ result, x = .ok result ∧ (result = some n ↔ P)) : x = .ok (some n) := by
  obtain ⟨result, hx, hresult⟩ := h
  rw [hx, hresult.2 hP]

theorem ne_ok_of_exists {E : Type} {x : Except E (Option ℕ)} {n : ℕ} {P : Prop} (hP : ¬ P)
    (h : ∃ result, x = .ok result ∧ (result = some n ↔ P)) : x ≠ .ok (some n) := by
  obtain ⟨result, rfl, hresult⟩ := h
  exact fun heq => hP (hresult.1 (Except.ok.inj heq))

def rustInput : String × Rust.AuditRecordInput ℤ (Option ℤ) := ("t", Rust.sampleInput)

def pythonInput : Json.Units × Python.AuditRecordInput ℤ :=
  (Json.utf16 "t", { event := Json.utf16 "e", actor := Json.utf16 "a" })

def typescriptInput : Json.Units × TypeScript.AuditRecordInput ℤ :=
  (Json.utf16 "t", { event := Json.utf16 "e", actor := Json.utf16 "a" })

theorem all_handover {C : Type} {Takes : C → Prop} {c : C} (h : Takes c) :
    ∀ op ∈ handover c, op.All Takes := by simp [handover, WriterOp.All, h]

theorem all_race {C : Type} {Takes : C → Prop} {c : C} (h : Takes c) :
    ∀ op ∈ race c, op.All Takes := by simp [race, WriterOp.All, h]

theorem readsBack_rustInput : rustInput.2.ReadsBack Rust.SerdeJson.integers rustInput.1 :=
  Rust.AuditRecordInput.readsBack_integers "t" Rust.sampleInput

theorem verify_of_interleaving_handover :
    (Rust.port Rust.SerdeJson.integers Hmac.sample "k").verifyAfter (handover rustInput) =
        .ok (some 2) ∧
      (Python.port Json.Numerals.integers Hmac.sample "k").verifyAfter (handover pythonInput) =
        .ok (some 2) ∧
      (TypeScript.port Json.Numerals.integers Hmac.sample "k").verifyAfter
        (handover typescriptInput) = .ok (some 2) := by
  obtain ⟨hrust, hpython, htypescript⟩ := verify_of_interleaving (I := Bool)
    Rust.SerdeJson.integers Rust.SerdeJson.lawful_integers
    (Rust.Value.toString_injective Rust.SerdeJson.fromStr_integers) Json.Numerals.integers
    Json.Numerals.lawful_integers Json.Numerals.integers some Json.Numerals.lawful_integers
    (Json.Numerals.reprints_some _) Hmac.sample "k" (Hmac.ideal_sample _)
  exact ⟨eq_ok_of_exists (singleWriter_handover _) (hrust _ (all_handover readsBack_rustInput)),
    eq_ok_of_exists (singleWriter_handover _) (hpython _),
    eq_ok_of_exists (singleWriter_handover _) (htypescript _)⟩

/-- Two instances append once each, in any of the ports, and the file does not verify. -/
theorem exists_interleaving_tampered :
    ∃ (hmac : Hmac) (key : String), hmac.Ideal (utf8 key.toList) ∧
      (Rust.port Rust.SerdeJson.integers hmac key).verifyAfter (race rustInput) ≠ .ok (some 2) ∧
      (Python.port Json.Numerals.integers hmac key).verifyAfter (race pythonInput) ≠
        .ok (some 2) ∧
      (TypeScript.port Json.Numerals.integers hmac key).verifyAfter (race typescriptInput) ≠
        .ok (some 2) := by
  have hideal := Hmac.ideal_sample (utf8 "k".toList)
  refine ⟨Hmac.sample, "k", hideal, ?_, ?_, ?_⟩
  · apply ne_ok_of_exists (not_singleWriter_race _)
    exact Rust.verifyAfter_iff Rust.SerdeJson.lawful_integers
      (Rust.Value.toString_injective Rust.SerdeJson.fromStr_integers) hideal
      (all_race readsBack_rustInput)
  · apply ne_ok_of_exists (not_singleWriter_race _)
    exact Python.verifyAfter_iff Json.Numerals.lawful_integers hideal _
  · apply ne_ok_of_exists (not_singleWriter_race _)
    exact TypeScript.verifyAfter_iff Json.Numerals.lawful_integers
      (Json.Numerals.reprints_some _) hideal _

end Interleaving

end Resilience

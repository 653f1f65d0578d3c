import Resilience.Python.AuditLedger

/-!
# What verification finds out

`verify_ledger` on files that anyone may have written. `checkRecord_cases` says what can happen at
one record: it extends the chain, it is reported, or reading it raises. The walk goes on exactly
over the records that extend the chain (`walk_append`), so it returns a result exactly when no
record it comes to raises (`walk_returns_iff`), and a line that replaces one of an honest ledger is
reported unless it raises or carries the same entry (`walk_replaced`).
-/

namespace Resilience.Python

open Json

variable {ν : Type} {N : Numerals ν} {hmac : Hmac} {key : String}

/-! ## Records that extend a chain -/

/-- A failed verification at line `i`. -/
def tampered (i : ℕ) (reason : String) : VerifyResult where
  ok := false
  tamperedIndex := some i
  reason := some reason

/-- After a record signed `prevSig`, reading `d` does not raise: it is a dictionary, and it has the
signed fields if it links to that record. -/
def Checkable (prevSig : Doc ν) (d : Doc ν) : Prop :=
  ∃ record, d = .obj record ∧ (get "prev_sig" record = prevSig → HasFields record)

/-- `d` is a record that extends the chain after `prevSig`, by the entry `e`. -/
structure Extends (N : Numerals ν) (hmac : Hmac) (key : String) (prevSig : Doc ν) (d : Doc ν)
    (e : Entry (Doc ν) (Doc ν)) : Prop where
  entry : entryOf d = some e
  link : (scheme N hmac key).link e.payload = prevSig
  sign : (scheme N hmac key).sign e.payload = e.tag

theorem Extends.checkable {s : Units} {d : Doc ν} {e : Entry (Doc ν) (Doc ν)}
    (h : Extends N hmac key (.str s) d e) : Checkable (.str s) d := by
  have hentry := h.entry
  cases d with
  | obj record =>
    rw [entryOf] at hentry
    split_ifs at hentry with hfields
    exact ⟨record, rfl, fun _ => hfields⟩
  | _ => cases hentry

/-- The records `pre` are a chain of the entries `es`, after `prevSig`. -/
structure Intact (N : Numerals ν) (hmac : Hmac) (key : String) (prevSig : Doc ν)
    (pre : List (Doc ν)) (es : List (Entry (Doc ν) (Doc ν))) : Prop where
  entries : pre.map entryOf = es.map some
  chained : (scheme N hmac key).Chained prevSig es

theorem intact_nil (prevSig : Doc ν) : Intact N hmac key prevSig [] [] := ⟨rfl, trivial⟩

theorem intact_cons {prevSig : Doc ν} {d : Doc ν} {pre : List (Doc ν)}
    {es : List (Entry (Doc ν) (Doc ν))} :
    Intact N hmac key prevSig (d :: pre) es ↔
      ∃ e es', es = e :: es' ∧ Extends N hmac key prevSig d e ∧
        Intact N hmac key e.tag pre es' := by
  constructor
  · rintro ⟨hentries, hchained⟩
    cases es with
    | nil => cases hentries
    | cons e es =>
      obtain ⟨hd, hpre⟩ := List.cons.inj hentries
      exact ⟨e, es, rfl, ⟨hd, hchained.1, hchained.2.1⟩, hpre, hchained.2.2⟩
  · rintro ⟨e, es', rfl, he, hes⟩
    refine ⟨?_, he.link, he.sign, hes.chained⟩
    rw [List.map_cons, List.map_cons, he.entry, hes.entries]

theorem Extends.tag {prevSig : Doc ν} {d : Doc ν} {e : Entry (Doc ν) (Doc ν)}
    (h : Extends N hmac key prevSig d e) : ∃ s, e.tag = .str s := ⟨_, h.sign.symm⟩

/-- After a signature comes a signature. -/
theorem Intact.lastTag {s : Units} {pre : List (Doc ν)} {es : List (Entry (Doc ν) (Doc ν))}
    (h : Intact N hmac key (.str s) pre es) : ∃ s', Resilience.lastTag (.str s) es = .str s' := by
  induction pre generalizing s es with
  | nil =>
    obtain rfl := List.map_eq_nil_iff.1 h.entries.symm
    exact ⟨s, rfl⟩
  | cons d pre ih =>
    obtain ⟨e, es, rfl, he, hes⟩ := intact_cons.1 h
    obtain ⟨s', htag⟩ := he.tag
    rw [htag] at hes
    rw [lastTag_cons, htag]
    exact ih hes

/-! ## The walk -/

variable [DecidableEq ν]

/-- What `checkRecord` does. -/
theorem checkRecord_cases (N : Numerals ν) (hmac : Hmac) (key : String) (i : ℕ) (s : Units)
    (d : Doc ν) :
    (∃ e, Extends N hmac key (.str s) d e ∧
      checkRecord N hmac key i (.str s) d = .ok (.inr e.tag)) ∨
    (Checkable (.str s) d ∧ (∀ e, ¬ Extends N hmac key (.str s) d e) ∧
      ∃ reason, checkRecord N hmac key i (.str s) d = .ok (.inl (tampered i reason))) ∨
    (¬ Checkable (.str s) d ∧ ∃ error, checkRecord N hmac key i (.str s) d = .error error) := by
  cases d with
  | obj record =>
    have hlink := link_canonical N hmac key record
    by_cases hprev : get "prev_sig" record = .str s
    · by_cases hfields : HasFields record
      · have hentry : entryOf (.obj record) = some (entry record) := if_pos hfields
        have hsign : sign N hmac key record = .ok (signPayload N hmac key (payloadOf record)) := by
          rw [sign, signingPayload_of_hasFields hfields]
          rfl
        by_cases hsig : .str (signPayload N hmac key (payloadOf record)) = get "sig" record
        · left
          refine ⟨entry record, ⟨hentry, ?_, hsig⟩, ?_⟩
          · show (scheme N hmac key).link (canonical (payloadOf record)) = _
            rw [hlink, hprev]
            rfl
          · have hitem : item "sig" record = .ok (get "sig" record) := by
              rw [item, get]
              cases hlookup : lookup (utf16 "sig") record with
              | some v => rfl
              | none =>
                rw [get, hlookup] at hsig
                cases hsig
            rw [checkRecord, if_neg (not_not.2 hprev), hsign]
            show (if _ then _ else _) = _
            rw [if_neg (not_not.2 hsig), hitem]
            rfl
        · refine .inr (.inl ⟨⟨record, rfl, fun _ => hfields⟩, fun e he => hsig ?_, ?_⟩)
          · obtain rfl : entry record = e := Option.some.inj (hentry.symm.trans he.entry)
            exact he.sign
          · refine ⟨s!"signature mismatch at line {i}", ?_⟩
            rw [checkRecord, if_neg (not_not.2 hprev), hsign]
            exact if_pos hsig
      · refine .inr (.inr ⟨?_, ?_⟩)
        · rintro ⟨record', heq, hchk⟩
          obtain rfl := Json.obj.inj heq
          exact hfields (hchk hprev)
        · obtain ⟨k, -, herror⟩ := signingPayload_of_not_hasFields hfields
          refine ⟨.keyError k, ?_⟩
          rw [checkRecord, if_neg (not_not.2 hprev), sign, herror]
          rfl
    · refine .inr (.inl ⟨⟨record, rfl, fun h => absurd h hprev⟩, fun e he => hprev ?_, ?_⟩)
      · have hentry := he.entry
        rw [entryOf] at hentry
        split_ifs at hentry
        obtain rfl := Option.some.inj hentry
        exact (sortKeys_eq_str rank).1 (hlink.symm.trans he.link)
      · exact ⟨_, if_pos hprev⟩
  | _ =>
    refine .inr (.inr ⟨?_, .attributeError, rfl⟩)
    rintro ⟨record, heq, -⟩
    cases heq

/-- The walk passes over a chain. -/
theorem walk_append {s : Units} {pre : List (Doc ν)} {es : List (Entry (Doc ν) (Doc ν))}
    (h : Intact N hmac key (.str s) pre es) (i : ℕ) (rest : List (Doc ν)) :
    walk N hmac key i (.str s) (pre ++ rest) =
      walk N hmac key (i + pre.length) (lastTag (.str s) es) rest := by
  induction pre generalizing s es i with
  | nil =>
    obtain rfl := List.map_eq_nil_iff.1 h.entries.symm
    rfl
  | cons d pre ih =>
    obtain ⟨e, es, rfl, he, hes⟩ := intact_cons.1 h
    obtain ⟨s', htag⟩ := he.tag
    have hcheck : checkRecord N hmac key i (.str s) d = .ok (.inr e.tag) := by
      rcases checkRecord_cases N hmac key i s d with
        ⟨e', he', hcheck⟩ | ⟨-, hno, -⟩ | ⟨hno, -⟩
      · rw [hcheck, Option.some.inj (he.entry.symm.trans he'.entry)]
      · exact absurd he (hno e)
      · exact absurd he.checkable hno
    rw [htag] at hes hcheck
    rw [List.cons_append, walk, hcheck]
    show walk N hmac key (i + 1) (.str s') (pre ++ rest) = _
    rw [ih hes, lastTag_cons, htag, List.length_cons]
    congr 1
    omega

/-- Over records with all fields, the walk fails or finds a chain. -/
theorem walk_eq_none_iff (N : Numerals ν) (hmac : Hmac) (key : String) (i : ℕ) {s : Units}
    {rs : List (Items ν)} (h : ∀ r ∈ rs, HasFields r) :
    ∃ result, walk N hmac key i (.str s) (rs.map .obj) = .ok result ∧
      (∀ r, result = some r → r.ok = false) ∧
      (result = none ↔ (scheme N hmac key).Chained (.str s) (rs.map entry)) := by
  induction rs generalizing i s with
  | nil => exact ⟨none, rfl, by simp, iff_of_true rfl trivial⟩
  | cons r rs ih =>
    obtain ⟨hr, hrs⟩ := List.forall_mem_cons.1 h
    have hentry : entryOf (.obj r) = some (entry r) := if_pos hr
    rw [List.map_cons, List.map_cons, walk]
    rcases checkRecord_cases N hmac key i s (.obj r) with
      ⟨e, he, hcheck⟩ | ⟨-, hno, reason, hcheck⟩ | ⟨hno, -⟩
    · obtain rfl : entry r = e := Option.some.inj (hentry.symm.trans he.entry)
      obtain ⟨s', htag⟩ := he.tag
      obtain ⟨result, hwalk, hfails, hchained⟩ := ih (i + 1) (s := s') hrs
      refine ⟨result, ?_, hfails, hchained.trans ?_⟩
      · rw [hcheck, htag]
        exact hwalk
      · rw [Scheme.chained_cons, he.link, he.sign, htag]
        simp
    · refine ⟨some (tampered i reason), ?_, ?_, ?_⟩
      · rw [hcheck]
        rfl
      · rintro _ ⟨⟩
        rfl
      · exact iff_of_false (fun h => by cases h) fun hc => hno _ ⟨hentry, hc.1, hc.2.1⟩
    · exact absurd ⟨r, rfl, fun _ => hr⟩ hno

/-- The walk returns exactly when no record that it comes to raises. -/
theorem walk_returns_iff (i : ℕ) (s : Units) (records : List (Doc ν)) :
    (∃ result, walk N hmac key i (.str s) records = .ok result) ↔
      ∀ pre d post es, records = pre ++ d :: post → Intact N hmac key (.str s) pre es →
        Checkable (lastTag (.str s) es) d := by
  induction records generalizing i s with
  | nil => exact iff_of_true ⟨none, rfl⟩ (by simp)
  | cons d records ih =>
    -- the first record is checked, and the others after it
    have hsplit : (∀ pre d' post es, d :: records = pre ++ d' :: post →
        Intact N hmac key (.str s) pre es → Checkable (lastTag (.str s) es) d') ↔
        Checkable (.str s) d ∧ ∀ e, Extends N hmac key (.str s) d e →
          ∀ pre d' post es, records = pre ++ d' :: post → Intact N hmac key e.tag pre es →
            Checkable (lastTag e.tag es) d' := by
      constructor
      · intro h
        refine ⟨h [] d records [] rfl (intact_nil _), fun e he pre d' post es heq hes => ?_⟩
        exact h (d :: pre) d' post (e :: es) (by rw [heq]; rfl)
          (intact_cons.2 ⟨e, es, rfl, he, hes⟩)
      · rintro ⟨hd, hrest⟩ pre d' post es heq hes
        cases pre with
        | nil =>
          obtain ⟨rfl, -⟩ := List.cons.inj heq
          obtain rfl := List.map_eq_nil_iff.1 hes.entries.symm
          exact hd
        | cons d'' pre =>
          obtain ⟨rfl, hrecords⟩ := List.cons.inj heq
          obtain ⟨e, es, rfl, he, hes⟩ := intact_cons.1 hes
          exact hrest e he pre d' post es hrecords hes
    rw [hsplit, walk]
    rcases checkRecord_cases N hmac key i s d with
      ⟨e, he, hcheck⟩ | ⟨hd, hno, reason, hcheck⟩ | ⟨hno, error, hcheck⟩
    · obtain ⟨s', htag⟩ := he.tag
      rw [hcheck, htag]
      show (∃ result, walk N hmac key (i + 1) (.str s') records = .ok result) ↔ _
      rw [ih]
      constructor
      · intro h
        refine ⟨he.checkable, fun e' he' => ?_⟩
        obtain rfl : e = e' := Option.some.inj (he.entry.symm.trans he'.entry)
        rw [htag]
        exact h
      · rintro ⟨-, h⟩
        rw [← htag]
        exact h e he
    · rw [hcheck]
      exact iff_of_true ⟨_, rfl⟩ ⟨hd, fun e he => absurd he (hno e)⟩
    · rw [hcheck]
      exact iff_of_false (by rintro ⟨_, ⟨⟩⟩) fun h => hno h.1

/-- Every line that is not blank is JSON, and no record that the walk comes to raises: what comes
before it is a chain, and reading it after that does not raise. -/
def Verifiable (N : Numerals ν) (hmac : Hmac) (key : String) (content : Text) : Prop :=
  ∃ records, (recordLines content).map (loads N) = records.map .ok ∧
    ∀ pre d post es, records = pre ++ d :: post → Intact N hmac key (.str []) pre es →
      Checkable (lastTag (.str []) es) d

theorem verifyRecords_returns_iff (records : List (Doc ν)) :
    (∃ result, verifyRecords N hmac key records = .ok result) ↔
      ∃ result, walk N hmac key 0 (.str []) records = .ok result := by
  unfold verifyRecords
  cases walk N hmac key 0 (.str []) records with
  | error e => exact iff_of_false (by rintro ⟨_, ⟨⟩⟩) (by rintro ⟨_, ⟨⟩⟩)
  | ok result => cases result <;> exact iff_of_true ⟨_, rfl⟩ ⟨_, rfl⟩

theorem verifyLedger_returns_iff (content : Text) :
    (∃ result, verifyLedger N hmac (some content) key = .ok result) ↔
      Verifiable N hmac key content := by
  rw [verifyLedger, readRecords_some]
  cases hread : (recordLines content).mapM (loads N) with
  | error e =>
    refine iff_of_false (by rintro ⟨_, ⟨⟩⟩) ?_
    rintro ⟨records, hrecords, -⟩
    rw [mapM_eq_ok_iff.2 hrecords] at hread
    cases hread
  | ok records =>
    refine (verifyRecords_returns_iff records).trans ((walk_returns_iff 0 [] records).trans ?_)
    rw [mapM_eq_ok_iff] at hread
    constructor
    · exact fun h => ⟨records, hread, h⟩
    · rintro ⟨records', hrecords', h⟩
      obtain rfl : records = records' :=
        List.map_injective_iff.2 (fun _ _ => Except.ok.inj) (hread.symm.trans hrecords')
      exact h

/-! ## A line of an honest ledger is replaced -/

/-- The lines of an honest ledger. -/
def honestLines (N : Numerals ν) (hmac : Hmac) (key : String)
    (inputs : List (Units × AuditRecordInput ν)) : List Text :=
  (AuditLedger.records N hmac ⟨key, .str []⟩ inputs).map fun r => dumps N (.obj r)

/-- Its file, with `t` for the line `i`. -/
def replaced (N : Numerals ν) (hmac : Hmac) (key : String)
    (inputs : List (Units × AuditRecordInput ν)) (i : ℕ) (t : Text) : Text :=
  unlines ((honestLines N hmac key inputs).set i t)

section Replaced

variable (hN : N.Lawful some) (inputs : List (Units × AuditRecordInput ν))

omit [DecidableEq ν] in
/-- Every record of a ledger was written by an `append` with its key, after some signature. -/
theorem exists_of_mem_records {L : AuditLedger ν} {s : Units} (hL : L.lastSig = .str s)
    {inputs : List (Units × AuditRecordInput ν)} {r : Items ν}
    (hr : r ∈ L.records N hmac inputs) :
    ∃ (L' : AuditLedger ν) (s' : Units) (now : Units) (input : AuditRecordInput ν),
      L'.lastSig = .str s' ∧ r = L'.record N hmac now input := by
  induction inputs generalizing L s with
  | nil => exact absurd hr List.not_mem_nil
  | cons p inputs ih =>
    obtain ⟨now, input⟩ := p
    have hsig : (L.appended N hmac now input).lastSig = .str _ := get_sig_record L now input
    rcases List.mem_cons.1 hr with rfl | hr
    · exact ⟨L, s, now, input, hL, rfl⟩
    · exact ih hsig hr

variable (N hmac key) in
omit [DecidableEq ν] in
theorem intact_records :
    Intact N hmac key (.str []) ((AuditLedger.records N hmac ⟨key, .str []⟩ inputs).map .obj)
      ((AuditLedger.records N hmac ⟨key, .str []⟩ inputs).map entry) where
  entries := by
    rw [List.map_map, List.map_map]
    refine List.map_congr_left fun r hr => ?_
    obtain ⟨L', s', now, input, -, rfl⟩ := exists_of_mem_records rfl hr
    exact entryOf_record L' now input
  chained := chained_records (L := ⟨key, .str []⟩) rfl inputs

omit [DecidableEq ν] in
theorem Intact.take {prevSig : Doc ν} {pre : List (Doc ν)} {es : List (Entry (Doc ν) (Doc ν))}
    (h : Intact N hmac key prevSig pre es) (i : ℕ) :
    Intact N hmac key prevSig (pre.take i) (es.take i) where
  entries := by rw [List.map_take, List.map_take, h.entries]
  chained := by
    have hchained := h.chained
    rw [← List.take_append_drop i es, Scheme.chained_append] at hchained
    exact hchained.1

omit [DecidableEq ν] in
theorem drop_records {i : ℕ} {r : Items ν}
    (hr : (AuditLedger.records N hmac ⟨key, .str []⟩ inputs)[i]? = some r) :
    ∃ rest, ((AuditLedger.records N hmac ⟨key, .str []⟩ inputs).map entry).drop i =
      entry r :: rest := by
  obtain ⟨hi, rfl⟩ := List.getElem?_eq_some_iff.1 hr
  rw [List.drop_eq_getElem_cons (by simpa using hi), List.getElem_map]
  exact ⟨_, rfl⟩

omit [DecidableEq ν] in
/-- The `prev_sig` of a line is the signature of the line before it. -/
theorem prevSig_eq {i : ℕ} {r : Items ν}
    (hr : (AuditLedger.records N hmac ⟨key, .str []⟩ inputs)[i]? = some r) :
    lastTag (.str []) (((AuditLedger.records N hmac ⟨key, .str []⟩ inputs).map entry).take i) =
      get "prev_sig" r := by
  have hintact := intact_records N hmac key inputs
  obtain ⟨rest, hdrop⟩ := drop_records inputs hr
  have hchained := hintact.chained
  rw [← List.take_append_drop i (List.map entry _), Scheme.chained_append, hdrop] at hchained
  obtain ⟨s, hs⟩ := (hintact.take i).lastTag
  have hlink : sortKeys rank (get "prev_sig" r) = .str s := by
    rw [← link_canonical N hmac key r, ← hs]
    exact hchained.2.1
  rw [hs, (sortKeys_eq_str rank).1 hlink]

include hN

variable (hmac key) in
omit [DecidableEq ν] in
theorem readRecords_replaced (i : ℕ) {t : Text} (hline : OneLine t)
    (hblank : isBlank isSpace t = false) :
    (recordLines (replaced N hmac key inputs i t)).map (loads N) =
      (((AuditLedger.records N hmac ⟨key, .str []⟩ inputs).map .obj).map .ok).set i
        (loads N t) := by
  have hmem : ∀ l ∈ (honestLines N hmac key inputs).set i t,
      OneLine l ∧ isBlank isSpace l = false := by
    intro l hl
    rcases List.mem_or_eq_of_mem_set hl with hl | rfl
    · obtain ⟨r, -, rfl⟩ := List.mem_map.1 hl
      exact ⟨oneLine_dumps hN _, isBlank_dumps N r⟩
    · exact ⟨hline, hblank⟩
  rw [replaced, recordLines_unlines (fun l hl => (hmem l hl).1) fun l hl => (hmem l hl).2,
    List.map_set, honestLines, List.map_map, List.map_map]
  congr 1
  refine List.map_congr_left fun r hr => ?_
  obtain ⟨L', s', now, input, hL', rfl⟩ := exists_of_mem_records rfl hr
  rw [Function.comp_apply, Function.comp_apply]
  exact loads_dumps hN (nodup_record hL' now input)

omit [DecidableEq ν] in
/-- What extends the chain where the line `i` was, and signs something that was signed, is that
line's entry. -/
theorem entry_unique (hideal : hmac.Ideal (utf8 key.toList)) {i : ℕ} {r : Items ν} {d : Doc ν}
    {e : Entry (Doc ν) (Doc ν)}
    (hr : (AuditLedger.records N hmac ⟨key, .str []⟩ inputs)[i]? = some r)
    (he : Extends N hmac key (get "prev_sig" r) d e)
    (hsigned : ∃ r' ∈ AuditLedger.records N hmac ⟨key, .str []⟩ inputs,
      (entry r').payload = e.payload) : e = entry r := by
  obtain ⟨r', hr', hpayload⟩ := hsigned
  obtain ⟨rest, hdrop⟩ := drop_records inputs hr
  have hchained := (intact_records N hmac key inputs).chained
  rw [← List.take_append_drop i (List.map entry _)] at hchained
  have hmem : ∃ e' ∈ ((AuditLedger.records N hmac ⟨key, .str []⟩ inputs).map entry).take i ++
      ((AuditLedger.records N hmac ⟨key, .str []⟩ inputs).map entry).drop i,
      e'.payload = e.payload := by
    rw [List.take_append_drop]
    exact ⟨entry r', List.mem_map_of_mem hr', hpayload⟩
  obtain ⟨rest', hdrop'⟩ := Scheme.next_unique (sign_injective hN hideal) (sign_ne_genesis hideal)
    hchained (he.link.trans (prevSig_eq inputs hr).symm) he.sign hmem
  rw [hdrop] at hdrop'
  exact (List.cons.inj hdrop').1.symm

omit hN in
/-- The walk over such a file comes to the new record, after the one before it. -/
theorem walk_replaced {i : ℕ} {r : Items ν}
    (hr : (AuditLedger.records N hmac ⟨key, .str []⟩ inputs)[i]? = some r) (d : Doc ν) :
    ∃ s, get "prev_sig" r = .str s ∧
      walk N hmac key 0 (.str [])
        (((AuditLedger.records N hmac ⟨key, .str []⟩ inputs).map .obj).set i d) =
      walk N hmac key i (.str s)
        (d :: ((AuditLedger.records N hmac ⟨key, .str []⟩ inputs).map .obj).drop (i + 1)) := by
  have htake := (intact_records N hmac key inputs).take i
  obtain ⟨s, hs⟩ := htake.lastTag
  obtain ⟨hi, -⟩ := List.getElem?_eq_some_iff.1 hr
  refine ⟨s, (prevSig_eq inputs hr).symm.trans hs, ?_⟩
  rw [List.set_eq_take_append_cons_drop, if_pos (by simpa using hi), walk_append htake, hs,
    List.length_take, List.length_map, Nat.zero_add, Nat.min_eq_left hi.le]

theorem verifyLedger_replaced {i : ℕ} {t : Text} {d : Doc ν} (hline : OneLine t)
    (hblank : isBlank isSpace t = false) (hd : loads N t = .ok d) :
    verifyLedger N hmac (some (replaced N hmac key inputs i t)) key = verifyRecords N hmac key
      (((AuditLedger.records N hmac ⟨key, .str []⟩ inputs).map .obj).set i d) := by
  have hread := readRecords_replaced hmac key hN inputs i hline hblank
  rw [hd, ← List.map_set, ← mapM_eq_ok_iff, ← readRecords_some] at hread
  rw [verifyLedger, hread]
  rfl

theorem verifyLedger_replaced_error {i : ℕ} {t : Text} {error : PyError} (hline : OneLine t)
    (hblank : isBlank isSpace t = false)
    (hi : i < (AuditLedger.records N hmac ⟨key, .str []⟩ inputs).length)
    (hd : loads N t = .error error) (result : VerifyResult) :
    verifyLedger N hmac (some (replaced N hmac key inputs i t)) key ≠ .ok result := by
  intro h
  obtain ⟨records, hrecords, -⟩ := (verifyLedger_returns_iff _).1 ⟨result, h⟩
  rw [readRecords_replaced hmac key hN inputs i hline hblank, hd] at hrecords
  have hlen : i < records.length := by
    have := congrArg List.length hrecords
    simp only [List.length_set, List.length_map] at this
    omega
  have hget := congrArg (·[i]?) hrecords
  simp [hi, hlen] at hget

end Replaced

/-! ## What verification finds out -/

/-- **When `verify_ledger` returns, and when it finds a replaced line.** It returns a result on a
text exactly when every line that is not blank is JSON and no record that the walk comes to lacks
what it reads. A line of an honest ledger, replaced by a text that does not carry its entry or a
forged one, is reported exactly when the text is a JSON object that has another `prev_sig` than the
line or all of the signed fields. -/
theorem verifyLedger_returns_and_detects (N : Numerals ν) (hN : N.Lawful some) (hmac : Hmac)
    (key : String) (hideal : hmac.Ideal (utf8 key.toList)) :
    (∀ content, (∃ result, verifyLedger N hmac (some content) key = .ok result) ↔
      Verifiable N hmac key content) ∧
    ∀ inputs i r t, (AuditLedger.records N hmac ⟨key, .str []⟩ inputs)[i]? = some r →
      OneLine t → isBlank isSpace t = false →
      (∀ d, loads N t = .ok d → entryOf d ≠ some (entry r)) →
      (∀ d e, loads N t = .ok d → entryOf d = some e →
        (scheme N hmac key).sign e.payload = e.tag →
        ∃ r' ∈ AuditLedger.records N hmac ⟨key, .str []⟩ inputs,
          (entry r').payload = e.payload) →
      ((∃ reason, verifyLedger N hmac (some (replaced N hmac key inputs i t)) key =
          .ok (tampered i reason)) ↔
        ∃ d, loads N t = .ok d ∧ Checkable (get "prev_sig" r) d) := by
  refine ⟨verifyLedger_returns_iff, fun inputs i r t hr hline hblank hother hforge => ?_⟩
  have hi := (List.getElem?_eq_some_iff.1 hr).1
  cases hd : loads N t with
  | error error =>
    refine iff_of_false ?_ fun h => ?_
    · rintro ⟨reason, h⟩
      exact verifyLedger_replaced_error hN inputs hline hblank hi hd _ h
    · obtain ⟨d, hd', -⟩ := h
      cases hd'
  | ok d =>
    have hd' : (∃ d', (Except.ok d : Except PyError (Doc ν)) = .ok d' ∧
        Checkable (get "prev_sig" r) d') ↔ Checkable (get "prev_sig" r) d := by simp
    obtain ⟨s, hs, hwalk⟩ := walk_replaced inputs hr d
    rw [verifyLedger_replaced hN inputs hline hblank hd, verifyRecords, hwalk, walk, hd', hs]
    rcases checkRecord_cases N hmac key i s d with
      ⟨e, he, -⟩ | ⟨hchk, -, reason, hcheck⟩ | ⟨hchk, error, hcheck⟩
    · have hsame : e = entry r := by
        apply entry_unique hN inputs hideal hr (hs ▸ he)
        exact hforge d e hd he.entry he.sign
      exact absurd (hsame ▸ he.entry) (hother d hd)
    · rw [hcheck]
      exact iff_of_true ⟨reason, rfl⟩ hchk
    · rw [hcheck]
      refine iff_of_false ?_ hchk
      rintro ⟨reason, h⟩
      cases h

def sampleInputs : List (Units × AuditRecordInput ℤ) :=
  [(utf16 "t", { event := utf16 "e", actor := utf16 "a" })]

/-- The only line is replaced by an object with another `prev_sig`. -/
theorem verifyLedger_returns_and_detects_link :
    ∃ reason, verifyLedger Numerals.integers Hmac.sample
      (some (replaced Numerals.integers Hmac.sample "k" sampleInputs 0
        (ascii "\x7b\"prev_sig\":\"x\"\x7d"))) "k" = .ok (tampered 0 reason) := by
  have hparse : parse Numerals.integers.reader (ascii "\x7b\"prev_sig\":\"x\"\x7d") =
      some (.obj [(utf16 "prev_sig", .str (utf16 "x"))]) := by decide +kernel
  have hload : loads Numerals.integers (ascii "\x7b\"prev_sig\":\"x\"\x7d") =
      .ok (.obj [(utf16 "prev_sig", .str (utf16 "x"))]) := by
    rw [loads, hparse]
    rfl
  have hfields : ¬ HasFields ([(utf16 "prev_sig", .str (utf16 "x"))] : Items ℤ) := by
    decide +kernel
  have hnone : entryOf (.obj [(utf16 "prev_sig", .str (utf16 "x"))] : Doc ℤ) = none := by
    rw [entryOf, if_neg hfields]
  refine ((verifyLedger_returns_and_detects Numerals.integers Numerals.lawful_integers Hmac.sample
    "k" (Hmac.ideal_sample _)).2 sampleInputs 0 _ _ rfl ?_ ?_ ?_ ?_).2
    ⟨_, hload, _, rfl, fun h => ?_⟩
  · unfold OneLine
    decide +kernel
  · decide +kernel
  · intro d hd
    rw [hload, Except.ok.injEq] at hd
    rw [← hd, hnone]
    exact fun h => by cases h
  · intro d e hd he
    rw [hload, Except.ok.injEq] at hd
    rw [← hd, hnone] at he
    cases he
  · exact absurd h (by decide +kernel)

/-- The only line is replaced by something that is no JSON, and by an object without fields:
verification raises. -/
theorem exists_verifyLedger_error :
    ∃ (N : Numerals ℤ) (hmac : Hmac) (key : String) (inputs : List (Units × AuditRecordInput ℤ)),
      N.Lawful some ∧ hmac.Ideal (utf8 key.toList) ∧
        ∀ t ∈ [ascii "x", ascii "\x7b\"prev_sig\":\"\"\x7d"],
          (verifyLedger N hmac (some (replaced N hmac key inputs 0 t)) key).toOption = none := by
  refine ⟨Numerals.integers, Hmac.sample, "k", sampleInputs, Numerals.lawful_integers,
    Hmac.ideal_sample _, ?_⟩
  decide +kernel

omit [DecidableEq ν] in
theorem entry_eq_iff {record record' : Items ν} :
    entry record = entry record' ↔
      (∀ k ∈ payloadFields, sortKeys rank (get k record) = sortKeys rank (get k record')) ∧
        get "sig" record = get "sig" record' := by
  rw [Entry.ext_iff, ← canonical_eq_iff]
  rfl

/-- **What a signature pins.** Let a line of an honest ledger be replaced by a JSON object, and
nothing be forged. The file is accepted exactly when the object has the signature of the line, has
the signed fields, and agrees with the line on them and on `confidence` and `rationale`: up to the
order of items, and where no `confidence` or `rationale` is the same as `None`. -/
theorem verifyLedger_ok_iff (N : Numerals ν) (hN : N.Lawful some) (hmac : Hmac) (key : String)
    (hideal : hmac.Ideal (utf8 key.toList)) (inputs : List (Units × AuditRecordInput ν)) (i : ℕ)
    (r : Items ν) (hr : (AuditLedger.records N hmac ⟨key, .str []⟩ inputs)[i]? = some r)
    (t : Text) (record : Items ν) (hline : OneLine t) (hload : loads N t = .ok (.obj record))
    (hforge : .str (signPayload N hmac key (payloadOf record)) = get "sig" record →
      ∃ r' ∈ AuditLedger.records N hmac ⟨key, .str []⟩ inputs,
        canonical (payloadOf r') = canonical (payloadOf record)) :
    (∃ count, verifyLedger N hmac (some (replaced N hmac key inputs i t)) key =
        .ok { ok := true, count := count }) ↔
      HasFields record ∧
        (∀ k ∈ payloadFields, sortKeys rank (get k record) = sortKeys rank (get k r)) ∧
          get "sig" record = get "sig" r := by
  have hblank := isBlank_of_loads hload
  rw [verifyLedger_replaced hN inputs hline hblank hload, ← entry_eq_iff, verifyRecords]
  constructor
  · rintro ⟨count, haccept⟩
    obtain ⟨s, hs, hwalk⟩ := walk_replaced inputs hr (.obj record)
    rw [hwalk, walk] at haccept
    rcases checkRecord_cases N hmac key i s (.obj record) with
      ⟨e, he, -⟩ | ⟨-, -, reason, hcheck⟩ | ⟨-, error, hcheck⟩
    · have hentry := he.entry
      rw [entryOf] at hentry
      split_ifs at hentry with hfields
      obtain rfl := Option.some.inj hentry
      exact ⟨hfields, entry_unique hN inputs hideal hr (hs ▸ he) (hforge he.sign)⟩
    · rw [hcheck] at haccept
      cases haccept
    · rw [hcheck] at haccept
      cases haccept
  · rintro ⟨hfields, hsame⟩
    have hintact := intact_records N hmac key inputs
    have hset : Intact N hmac key (.str [])
        (((AuditLedger.records N hmac ⟨key, .str []⟩ inputs).map .obj).set i (.obj record))
        ((AuditLedger.records N hmac ⟨key, .str []⟩ inputs).map entry) := by
      refine ⟨?_, hintact.chained⟩
      have hentry : entryOf (.obj record) = some (entry r) := by
        rw [entryOf, if_pos hfields, hsame]
      have hget : (((AuditLedger.records N hmac ⟨key, .str []⟩ inputs).map entry).map some)[i]? =
          some (some (entry r)) := by
        rw [List.getElem?_map, List.getElem?_map, hr]
        rfl
      obtain ⟨hlt, heq⟩ := List.getElem?_eq_some_iff.1 hget
      rw [List.map_set, hentry, hintact.entries, ← heq, List.set_getElem_self]
    have hwalk := walk_append hset 0 []
    rw [List.append_nil] at hwalk
    rw [hwalk]
    exact ⟨_, rfl⟩

def sampleRecord : Items ℤ :=
  AuditLedger.record Numerals.integers ⟨"k", .str []⟩ Hmac.sample (utf16 "t")
    { event := utf16 "e", actor := utf16 "a" }

/-- The record with one member more has no duplicate keys. -/
theorem nodup_sampleRecord_append {k : Units} (hk : k ∉ sampleRecord.map Prod.fst) {d : Doc ℤ}
    (hd : d.Within (fun _ => True) List.Nodup) :
    (Json.obj (sampleRecord ++ [(k, d)])).Within (fun _ => True) List.Nodup := by
  have hnodup : (Json.obj sampleRecord).Within (fun _ => True) List.Nodup := nodup_record rfl ..
  rw [within_obj] at hnodup ⊢
  rw [List.map_append]
  refine ⟨List.nodup_append.2 ⟨hnodup.1, List.nodup_singleton k, fun a ha b hb heq => ?_⟩, ?_⟩
  · rw [List.map_singleton, List.mem_singleton] at hb
    exact hk ((heq.trans hb : a = k) ▸ ha)
  · exact List.forall_mem_append.2 ⟨hnodup.2, List.forall_mem_singleton.2 ⟨trivial, hd⟩⟩

theorem ok_of_toOption {ε α : Type} {x : Except ε α} {a : α} (h : x.toOption = some a) :
    x = .ok a := by
  cases x with
  | error e => cases h
  | ok b => rw [Option.some.inj h]

/-- The only line gets a `confidence` of `None`, and is accepted. -/
theorem verifyLedger_ok_iff_null :
    ∃ count, verifyLedger Numerals.integers Hmac.sample
      (some (replaced Numerals.integers Hmac.sample "k" sampleInputs 0
        (dumps Numerals.integers (.obj (sampleRecord ++ [(utf16 "confidence", .null)]))))) "k" =
      .ok { ok := true, count := count } := by
  refine (verifyLedger_ok_iff Numerals.integers Numerals.lawful_integers Hmac.sample "k"
    (Hmac.ideal_sample _) sampleInputs 0 sampleRecord rfl _
    (sampleRecord ++ [(utf16 "confidence", .null)]) ?_ ?_ ?_).2 ⟨?_, ?_, ?_⟩
  · exact oneLine_dumps Numerals.lawful_integers _
  · exact loads_dumps Numerals.lawful_integers
      (nodup_sampleRecord_append (by decide +kernel) trivial)
  · exact fun _ => ⟨sampleRecord, List.mem_singleton.2 rfl, by decide +kernel⟩
  · decide +kernel
  · decide +kernel
  · decide +kernel

/-- The only line gets a member that is not signed, and is accepted: nothing is forged, as the
payload is the one of the line. -/
theorem exists_unsigned_member :
    ∃ (N : Numerals ℤ) (hmac : Hmac) (key : String) (inputs : List (Units × AuditRecordInput ℤ))
      (r : Items ℤ) (t : Text) (record : Items ℤ),
      N.Lawful some ∧ hmac.Ideal (utf8 key.toList) ∧
        (AuditLedger.records N hmac ⟨key, .str []⟩ inputs)[0]? = some r ∧ OneLine t ∧
        loads N t = .ok (.obj record) ∧ canonical (payloadOf record) = canonical (payloadOf r) ∧
        verifyLedger N hmac (some (replaced N hmac key inputs 0 t)) key =
          .ok { ok := true, count := 1 } ∧
        (lookup (utf16 "note") record).isSome ∧ lookup (utf16 "note") r = none := by
  refine ⟨Numerals.integers, Hmac.sample, "k", sampleInputs, sampleRecord,
    dumps Numerals.integers (.obj (sampleRecord ++ [(utf16 "note", .str (utf16 "x"))])),
    sampleRecord ++ [(utf16 "note", .str (utf16 "x"))], Numerals.lawful_integers,
    Hmac.ideal_sample _, rfl, oneLine_dumps Numerals.lawful_integers _, ?_, ?_, ?_, ?_, ?_⟩
  · exact loads_dumps Numerals.lawful_integers
      (nodup_sampleRecord_append (by decide +kernel) trivial)
  · decide +kernel
  · exact ok_of_toOption (by decide +kernel)
  · decide +kernel
  · decide +kernel

end Resilience.Python

import Resilience.Foundations.Runs
import Resilience.Forge.Resolver

/-!
# What the label `cache` says

Requests one after the other, with the handler of the README and an entry that is empty at first.
The handler writes back whatever it answers, under a new timestamp. So the entry may hold data of
the mock, and data of the proxy that are older than the timestamp says.

`writer` is the exchange that wrote the record, and `origin` the one that its data come from. A
response from the cache has data that the proxy returned, unless `origin` fell back on the mock
(`always_fromProxy_iff`), and data that are not older than `ttlMs`, unless `writer` was answered
from the cache itself (`always_withinTtl`).
-/

namespace Resilience.Forge

open Runs

variable {T δ : Type}

/-- A request and its answer. -/
structure Exchange (T δ : Type) where
  request : Request T δ
  response : Option (Response δ)

namespace Exchange

/-- The label of the answer. -/
def source (x : Exchange T δ) : Option Source := x.response.map Response.source

/-- The answer was written to the entry. -/
def stored (x : Exchange T δ) : Bool := x.response.isSome && !x.request.writeFails

end Exchange

/-- The entry, and the exchanges up to now. -/
structure Session (T δ : Type) where
  entry : Entry T δ := none
  exchanges : List (Exchange T δ) := []

/-- The exchange that wrote the record of the entry. -/
def writer (xs : List (Exchange T δ)) : Option (Exchange T δ) :=
  (xs.filter Exchange.stored).getLast?

/-- The exchange that the data of the record come from: those that are answered from the cache write
what they have read. -/
def origin (xs : List (Exchange T δ)) : Option (Exchange T δ) :=
  (xs.filter fun x => x.stored && x.source ≠ some .cache).getLast?

theorem writer_concat (xs : List (Exchange T δ)) (x : Exchange T δ) :
    writer (xs ++ [x]) = if x.stored then some x else writer xs := by
  unfold writer
  cases hx : x.stored <;> simp [List.filter_append, hx]

theorem origin_concat (xs : List (Exchange T δ)) (x : Exchange T δ) :
    origin (xs ++ [x]) = if x.stored && x.source ≠ some .cache then some x else origin xs := by
  unfold origin
  cases hx : x.stored && decide (x.source ≠ some .cache) <;>
    simp only [List.filter_append, List.filter_cons, hx] <;> simp

theorem mem_of_writer {xs : List (Exchange T δ)} {x : Exchange T δ} (h : writer xs = some x) :
    x ∈ xs := (List.mem_filter.1 (List.mem_of_getLast? h)).1

theorem mem_of_origin {xs : List (Exchange T δ)} {x : Exchange T δ} (h : origin xs = some x) :
    x ∈ xs := (List.mem_filter.1 (List.mem_of_getLast? h)).1

section Serve

variable (truthy : δ → Bool) [Sub T] [LT T] [DecidableLT T] (ttlMs : T)

/-- A request to the handler of the README. -/
def serve (s : Session T δ) (r : Request T δ) : Session T δ :=
  match createResolver truthy (readme ttlMs) with
  | .error _ => s
  | .ok handler =>
    match (handler r).run.run s.entry with
    | (.ok response, entry) => ⟨entry, s.exchanges ++ [⟨r, some response⟩]⟩
    | (.error _, entry) => ⟨entry, s.exchanges ++ [⟨r, none⟩]⟩

theorem serve_eq (s : Session T δ) (r : Request T δ) :
    serve truthy ttlMs s r = ⟨written r (answer truthy ttlMs r s.entry) s.entry,
      s.exchanges ++ [⟨r, answer truthy ttlMs r s.entry⟩]⟩ := by
  simp only [serve, createResolver_readme, run_handler_readme]
  cases answer truthy ttlMs r s.entry <;> rfl

variable {truthy ttlMs} in
theorem eq_of_exchanges_serve {s : Session T δ} {r : Request T δ} {earlier : List (Exchange T δ)}
    {x : Exchange T δ} (h : (serve truthy ttlMs s r).exchanges = earlier ++ [x]) :
    s.exchanges = earlier ∧ ⟨r, answer truthy ttlMs r s.entry⟩ = x := by
  rw [serve_eq] at h
  simpa using h

/-- What the exchanges say about the entry. -/
structure Tracks (s : Session T δ) : Prop where
  proxied : ∀ x ∈ s.exchanges, ∀ data, x.response = some ⟨data, .proxy⟩ →
    x.request.proxy = .value data
  record : ∀ rec, s.entry = some rec → ∃ w o, writer s.exchanges = some w ∧
    origin s.exchanges = some o ∧ rec.timestamp = some w.request.stamped ∧
    w.response.map Response.data = some rec.data ∧
    ∃ source, source ≠ .cache ∧ o.response = some ⟨rec.data, source⟩

variable {truthy ttlMs} {s : Session T δ}

omit [Sub T] [LT T] [DecidableLT T] in
theorem tracks_empty : Tracks ({} : Session T δ) :=
  ⟨fun _ hx => absurd hx List.not_mem_nil, fun _ h => nomatch h⟩

theorem tracks_serve (h : Tracks s) (r : Request T δ) : Tracks (serve truthy ttlMs s r) := by
  rw [serve_eq]
  constructor
  · intro x hx data hdata
    rcases List.mem_append.1 hx with hx | hx
    · exact h.proxied x hx data hdata
    · rw [List.mem_singleton] at hx
      subst hx
      exact answer_proxy truthy hdata
  · intro rec hrec
    dsimp only at hrec ⊢
    rw [writer_concat, origin_concat]
    cases hanswer : answer truthy ttlMs r s.entry with
    | none =>
      rw [hanswer] at hrec
      simpa [Exchange.stored] using h.record rec hrec
    | some response =>
      obtain ⟨data, source⟩ := response
      rw [hanswer] at hrec
      cases hwrite : r.writeFails with
      | true =>
        simp only [written, hwrite, if_true] at hrec
        simpa [Exchange.stored, hwrite] using h.record rec hrec
      | false =>
        simp only [written, hwrite, Bool.false_eq_true, if_false, Option.some.injEq] at hrec
        subst hrec
        have hstored : (⟨r, some ⟨data, source⟩⟩ : Exchange T δ).stored = true := by
          simp [Exchange.stored, hwrite]
        rw [if_pos hstored, hstored]
        by_cases hsource : source = .cache
        · subst hsource
          obtain ⟨timestamp, hentry, -⟩ := answer_cache truthy hanswer
          obtain ⟨-, o, -, ho, -, -, hdata⟩ := h.record _ hentry
          exact ⟨_, o, rfl, by simpa [Exchange.source] using ho, rfl, rfl, hdata⟩
        · exact ⟨_, _, rfl, by simp [Exchange.source, hsource]; rfl, rfl, rfl, source, hsource, rfl⟩

/-! ## Where the data come from -/

/-- If the latest response is labelled `cache`, the proxy returned its data for an earlier
request. -/
def FromProxy (s : Session T δ) : Prop :=
  ∀ earlier x, s.exchanges = earlier ++ [x] → ∀ data, x.response = some ⟨data, .cache⟩ →
    ∃ y ∈ earlier, y.request.proxy = .value data

variable (truthy ttlMs) in
/-- The request is not answered from an entry whose data come from the mock; unless the proxy had
returned the same data. -/
def NotMocked (s : Session T δ) (r : Request T δ) : Prop :=
  ∀ data, answer truthy ttlMs r s.entry = some ⟨data, .cache⟩ →
    ∀ o, origin s.exchanges = some o → o.source = some .mock →
      ∃ y ∈ s.exchanges, y.request.proxy = .value data

/-- **When the label `cache` means data of the proxy.** -/
theorem always_fromProxy_iff (requests : List (Request T δ)) :
    Always (serve truthy ttlMs) FromProxy {} requests ↔
      EachStep (serve truthy ttlMs) (NotMocked truthy ttlMs) {} requests := by
  apply always_iff_eachStep (I := fun s => Tracks s ∧ FromProxy s) (A := fun _ _ => True)
  case hP => exact fun s h => h.2
  case hs => exact ⟨tracks_empty, fun earlier x h => by simp at h⟩
  case hevs => exact eachStep_of_forall_mem _ fun _ _ => trivial
  case hkeep =>
    rintro s r - ⟨htracks, -⟩ hmocked
    refine ⟨tracks_serve htracks r, fun earlier x hx data hdata => ?_⟩
    obtain ⟨rfl, rfl⟩ := eq_of_exchanges_serve hx
    obtain ⟨timestamp, hentry, -⟩ := answer_cache truthy hdata
    obtain ⟨-, o, -, ho, -, -, source, hsource, hresponse⟩ := htracks.record _ hentry
    cases source with
    | cache => exact absurd rfl hsource
    | proxy => exact ⟨o, mem_of_origin ho, htracks.proxied o (mem_of_origin ho) data hresponse⟩
    | mock => exact hmocked data hdata o ho (by simp [Exchange.source, hresponse])
  case hbreak =>
    rintro s r - - hP data hdata o - -
    rw [serve_eq] at hP
    exact hP _ _ rfl data hdata

end Serve

/-- A request that the proxy does not answer, at a time. -/
def missed (mock : ℕ) (now : ℤ) : Request ℤ ℕ where
  proxy := .value none
  mock := .value (some mock)
  called := now
  checked := now
  stamped := now
  answered := now

/-- The data of the mock, a second time, under the label `cache`. -/
theorem exists_not_fromProxy :
    ¬ Always (serve (· != 0) 10) FromProxy {} [missed 7 0, missed 7 1] := by
  rintro ⟨-, -, h⟩
  obtain ⟨y, hy, hproxy⟩ := h [⟨missed 7 0, some ⟨some 7, .mock⟩⟩]
    ⟨missed 7 1, some ⟨some 7, .cache⟩⟩ rfl (some 7) rfl
  rw [List.mem_singleton.1 hy] at hproxy
  cases hproxy

/-! ## How old the data are -/

section Age

variable [AddCommGroup T] [LinearOrder T] {truthy : δ → Bool} {ttlMs : T}

variable (ttlMs) in
/-- If the latest response is labelled `cache` and the proxy had returned its data, the latest call
that returned them is at most `ttlMs` ago. -/
def WithinTtl (s : Session T δ) : Prop :=
  ∀ earlier x, s.exchanges = earlier ++ [x] → ∀ data, x.response = some ⟨data, .cache⟩ →
    ∀ before y after, earlier = before ++ y :: after → y.request.proxy = .value data →
      (∀ z ∈ after, z.request.proxy ≠ .value data) →
        x.request.answered - y.request.called ≤ ttlMs

variable (truthy ttlMs) in
/-- If the request is answered from the cache with data that the proxy had returned, the entry was
written by a request that was answered from the proxy; and no time passes between the call of the
proxy and the timestamp, and between the check of its age and the response. -/
def NotRestamped (s : Session T δ) (r : Request T δ) : Prop :=
  ∀ data, answer truthy ttlMs r s.entry = some ⟨data, .cache⟩ →
    (∃ y ∈ s.exchanges, y.request.proxy = .value data) → ∀ w, writer s.exchanges = some w →
      w.source = some .proxy ∧ w.request.stamped = w.request.called ∧ r.answered = r.checked

/-- The calls of the proxy are not earlier than those before. -/
def InOrder (s : Session T δ) (r : Request T δ) : Prop :=
  ∀ x ∈ s.exchanges, x.request.called ≤ r.called

theorem eachStep_inOrder {s : Session T δ} {requests : List (Request T δ)}
    (h : (s.exchanges.map (·.request.called) ++ requests.map (·.called)).Pairwise (· ≤ ·)) :
    EachStep (serve truthy ttlMs) InOrder s requests := by
  induction requests generalizing s with
  | nil => trivial
  | cons r requests ih =>
    constructor
    · intro x hx
      exact (List.pairwise_append.1 h).2.2 _ (List.mem_map_of_mem hx) _ (by simp)
    · apply ih
      rw [serve_eq]
      simpa using h

variable [IsOrderedAddMonoid T]

theorem withinTtl_serve {s : Session T δ} {r : Request T δ} (htracks : Tracks s)
    (hordered : (s.exchanges.map (·.request.called)).Pairwise (· ≤ ·))
    (h : NotRestamped truthy ttlMs s r) : WithinTtl ttlMs (serve truthy ttlMs s r) := by
  intro earlier x hx data hdata before y after hearlier hy hafter
  obtain ⟨rfl, rfl⟩ := eq_of_exchanges_serve hx
  have hmem : y ∈ s.exchanges := hearlier ▸ by simp
  obtain ⟨timestamp, hentry, hfresh⟩ := answer_cache truthy hdata
  obtain ⟨w, -, hw, -, hstamp, hwdata, -⟩ := htracks.record _ hentry
  obtain rfl := Option.some.inj hstamp
  obtain ⟨hsource, hcalled, hanswered⟩ := h data hdata ⟨y, hmem, hy⟩ w hw
  -- The writer is one of the calls that returned the data, so it is not later than the latest.
  have hproxied : w.request.proxy = .value data := by
    apply htracks.proxied w (mem_of_writer hw)
    obtain ⟨⟨data', source⟩, hresponse, rfl⟩ := Option.map_eq_some_iff.1 hwdata
    simp only [Exchange.source, hresponse, Option.map_some, Option.some.injEq] at hsource
    rw [hresponse, hsource]
  have hle : w.request.called ≤ y.request.called := by
    have hw := mem_of_writer hw
    rw [hearlier] at hw hordered
    rcases List.mem_append.1 hw with hw | hw
    · rw [List.map_append, List.pairwise_append] at hordered
      exact hordered.2.2 _ (List.mem_map_of_mem hw) _ (by simp)
    · rcases List.mem_cons.1 hw with rfl | hw
      · exact le_rfl
      · exact absurd hproxied (hafter w hw)
  calc r.answered - y.request.called ≤ r.answered - w.request.called := sub_le_sub_left hle _
    _ = r.checked - w.request.stamped := by rw [hanswered, hcalled]
    _ ≤ ttlMs := not_lt.1 hfresh

/-- **When data from the cache are not older than `ttlMs`**: as long as no request is answered from
an entry that an answer from the cache was written back to, and no time passes while a request is
handled. -/
theorem always_withinTtl {requests : List (Request T δ)}
    (hclock : (requests.map (·.called)).Pairwise (· ≤ ·))
    (h : EachStep (serve truthy ttlMs) (NotRestamped truthy ttlMs) {} requests) :
    Always (serve truthy ttlMs) (WithinTtl ttlMs) {} requests := by
  have hinOrder : EachStep (serve truthy ttlMs) InOrder {} requests := eachStep_inOrder hclock
  apply always_of_eachStep (I := fun s => (Tracks s ∧
    (s.exchanges.map (·.request.called)).Pairwise (· ≤ ·)) ∧ WithinTtl ttlMs s) ?_ ?_ ?_
      (h.and hinOrder)
  · exact fun s h => h.2
  · rintro s r ⟨⟨htracks, hordered⟩, -⟩ ⟨hnot, hinOrder⟩
    refine ⟨⟨tracks_serve htracks r, ?_⟩, withinTtl_serve htracks hordered hnot⟩
    rw [serve_eq]
    simp only [List.map_append, List.map_cons, List.map_nil]
    refine List.pairwise_append.2 ⟨hordered, List.pairwise_singleton _ _, ?_⟩
    intro a ha b hb
    obtain ⟨x, hx, rfl⟩ := List.mem_map.1 ha
    rw [List.mem_singleton.1 hb]
    exact hinOrder x hx
  · exact ⟨⟨tracks_empty, List.Pairwise.nil⟩, fun earlier x h => by simp at h⟩

end Age

/-- A request that the proxy answers, at a time. -/
def fetched (data : ℕ) (now : ℤ) : Request ℤ ℕ where
  proxy := .value (some data)
  mock := .threw
  called := now
  checked := now
  stamped := now
  answered := now

theorem always_withinTtl_fetched :
    Always (serve (· != 0) 10) (WithinTtl 10) {} [fetched 7 0, missed 1 10] := by
  apply always_withinTtl
  · decide
  · refine ⟨fun data h => ?_, fun data h _ w hw => ?_, trivial⟩
    · cases h
    · cases hw
      exact ⟨rfl, rfl, rfl⟩

/-- Data of the proxy are written back under a new timestamp, and returned long after. -/
theorem exists_not_withinTtl :
    ¬ Always (serve (· != 0) 10) (WithinTtl 10) {} [fetched 7 0, missed 1 10, missed 1 20] := by
  rintro ⟨-, -, -, h⟩
  have hage := h
    [⟨fetched 7 0, some ⟨some 7, .proxy⟩⟩, ⟨missed 1 10, some ⟨some 7, .cache⟩⟩]
    ⟨missed 1 20, some ⟨some 7, .cache⟩⟩ rfl (some 7) rfl [] ⟨fetched 7 0, some ⟨some 7, .proxy⟩⟩
    [⟨missed 1 10, some ⟨some 7, .cache⟩⟩] rfl rfl (by simp [missed])
  revert hage
  decide

end Resilience.Forge

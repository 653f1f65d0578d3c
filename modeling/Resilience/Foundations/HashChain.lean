import Mathlib.Data.List.Infix
import Mathlib.Logic.Function.Basic

/-!
# Hash chains

A log of entries, each a payload with a tag: the payload names the tag of the entry before it
(`link`), and the tag is a signature of the payload (`sign`). The log is `Chained` when every link
and every tag is right, and `firstBroken` walks it and reports the first entry that is not.

When signatures are injective and none is the genesis tag, an entry's place in a chain is fixed by
its link (`eq_of_lastTag_eq`), so nothing that was signed for a chain can stand anywhere else in it
(`next_unique`). Two consequences:

* `firstBroken_of_chained`: a log whose right signatures all come from a chain `R` is intact
  exactly when it is a prefix of `R`, and otherwise is broken right after what it shares with `R`.
* `chained_run_iff`: several writers that each cache the last tag they know of keep a shared log
  chained exactly when each of them, whenever it appends, has seen everything there is.
-/

namespace Resilience

/-- A payload with its tag. -/
@[ext] structure Entry (P T : Type*) where
  payload : P
  tag : T
  deriving DecidableEq, Repr

/-- How payloads are linked and signed. -/
structure Scheme (P T : Type*) where
  /-- The link of the first entry. -/
  genesis : T
  /-- The tag a payload gives for the entry before it. -/
  link : P → T
  sign : P → T

variable {P T : Type*}

/-- The tag of the last entry of a log, or `t` when there is none. -/
def lastTag : T → List (Entry P T) → T
  | t, [] => t
  | _, e :: es => lastTag e.tag es

@[simp] theorem lastTag_nil (t : T) : lastTag t ([] : List (Entry P T)) = t := rfl

@[simp] theorem lastTag_cons (t : T) (e : Entry P T) (es : List (Entry P T)) :
    lastTag t (e :: es) = lastTag e.tag es := rfl

@[simp] theorem lastTag_concat (t : T) (es : List (Entry P T)) (e : Entry P T) :
    lastTag t (es ++ [e]) = e.tag := by
  induction es generalizing t with
  | nil => rfl
  | cons _ es ih => exact ih _

theorem lastTag_eq (t : T) (es : List (Entry P T)) :
    lastTag t es = ((es.map Entry.tag).getLast?).getD t := by
  cases es using List.reverseRecOn with
  | nil => rfl
  | append_singleton es e => simp

/-! ## The longest common prefix -/

/-- What two lists begin with alike. -/
def commonPrefix {α : Type*} [DecidableEq α] : List α → List α → List α
  | a :: as, b :: bs => if a = b then a :: commonPrefix as bs else []
  | _, _ => []

theorem commonPrefix_isPrefix {α : Type*} [DecidableEq α] (as bs : List α) :
    commonPrefix as bs <+: as ∧ commonPrefix as bs <+: bs := by
  induction as generalizing bs with
  | nil => simp [commonPrefix]
  | cons a as ih =>
    cases bs with
    | nil => simp [commonPrefix]
    | cons b bs =>
      by_cases h : a = b
      · subst h
        simpa [commonPrefix] using ih bs
      · simp [commonPrefix, h]

theorem isPrefix_commonPrefix {α : Type*} [DecidableEq α] {cs as bs : List α} (ha : cs <+: as)
    (hb : cs <+: bs) : cs <+: commonPrefix as bs := by
  induction cs generalizing as bs with
  | nil => exact List.nil_prefix
  | cons c cs ih =>
    obtain ⟨as, rfl⟩ := ha
    obtain ⟨bs, rfl⟩ := hb
    simpa [commonPrefix] using ih (List.prefix_append cs as) (List.prefix_append cs bs)

/-- Past their longest common prefix two lists do not agree on a next element. -/
theorem exists_eq_commonPrefix_append {α : Type*} [DecidableEq α] (as bs : List α) :
    ∃ as' bs', as = commonPrefix as bs ++ as' ∧ bs = commonPrefix as bs ++ bs' ∧
      ∀ c as'' bs'', as' = c :: as'' → bs' ≠ c :: bs'' := by
  obtain ⟨⟨as', ha⟩, ⟨bs', hb⟩⟩ := commonPrefix_isPrefix as bs
  refine ⟨as', bs', ha.symm, hb.symm, ?_⟩
  rintro c as'' bs'' rfl rfl
  have h : commonPrefix as bs ++ [c] <+: commonPrefix as bs := by
    apply isPrefix_commonPrefix
    · exact ⟨as'', by rw [List.append_assoc]; exact ha⟩
    · exact ⟨bs'', by rw [List.append_assoc]; exact hb⟩
  have hlen := h.length_le
  rw [List.length_append, List.length_singleton] at hlen
  omega

namespace Scheme

variable (S : Scheme P T)

/-! ## Chains and the walk -/

/-- Starting after the tag `t`, every entry links to the one before it and is rightly signed. -/
def Chained : T → List (Entry P T) → Prop
  | _, [] => True
  | t, e :: es => S.link e.payload = t ∧ S.sign e.payload = e.tag ∧ Chained e.tag es

/-- The entry that signs `p`. -/
def entry (p : P) : Entry P T := ⟨p, S.sign p⟩

/-- The position of the first entry with a wrong link or a wrong tag. -/
def firstBroken [DecidableEq T] : T → List (Entry P T) → Option ℕ
  | _, [] => none
  | t, e :: es =>
    if S.link e.payload ≠ t then some 0
    else if S.sign e.payload ≠ e.tag then some 0
    else (firstBroken e.tag es).map (· + 1)

variable {S}

@[simp] theorem chained_nil (t : T) : S.Chained t [] := trivial

@[simp] theorem chained_cons {t : T} {e : Entry P T} {es : List (Entry P T)} :
    S.Chained t (e :: es) ↔
      S.link e.payload = t ∧ S.sign e.payload = e.tag ∧ S.Chained e.tag es := Iff.rfl

theorem chained_append {t : T} {as bs : List (Entry P T)} :
    S.Chained t (as ++ bs) ↔ S.Chained t as ∧ S.Chained (lastTag t as) bs := by
  induction as generalizing t with
  | nil => simp
  | cons a as ih =>
    simp only [List.cons_append, chained_cons, lastTag_cons, ih]
    tauto

theorem chained_concat {t : T} {es : List (Entry P T)} {e : Entry P T} :
    S.Chained t (es ++ [e]) ↔
      S.Chained t es ∧ S.link e.payload = lastTag t es ∧ S.sign e.payload = e.tag := by
  rw [chained_append]
  simp

/-- An entry that is linked to a chain prolongs it exactly when it is signed. -/
theorem chained_concat_of_link {t : T} {es : List (Entry P T)} {e : Entry P T}
    (hlink : S.link e.payload = lastTag t es) :
    S.Chained t (es ++ [e]) ↔ S.Chained t es ∧ S.sign e.payload = e.tag := by
  rw [chained_concat, and_iff_right hlink]

/-- The tags that occur in chains. -/
def IsTag (t : T) : Prop := t = S.genesis ∨ ∃ p, S.sign p = t

theorem Chained.isTag_lastTag {es : List (Entry P T)} (h : S.Chained S.genesis es) :
    S.IsTag (lastTag S.genesis es) := by
  induction es using List.reverseRecOn with
  | nil => exact .inl rfl
  | append_singleton es e _ =>
    rw [lastTag_concat]
    exact .inr ⟨_, (chained_concat.1 h).2.2⟩

/-- Every entry of a chain links to the tag before its own. -/
theorem Chained.getElem?_link {t : T} {es : List (Entry P T)} (h : S.Chained t es) {i : ℕ}
    {e : Entry P T} (he : es[i]? = some e) :
    (t :: es.map Entry.tag)[i]? = some (S.link e.payload) := by
  induction es generalizing t i with
  | nil => simp at he
  | cons e' es ih =>
    obtain ⟨hlink, -, hrest⟩ := h
    cases i with
    | zero =>
      obtain rfl := Option.some.inj he
      simp [hlink]
    | succ i => exact ih hrest he

theorem firstBroken_eq_none_iff [DecidableEq T] {t : T} {es : List (Entry P T)} :
    S.firstBroken t es = none ↔ S.Chained t es := by
  induction es generalizing t with
  | nil => simp [firstBroken]
  | cons e es ih =>
    unfold firstBroken
    by_cases h₁ : S.link e.payload = t
    · by_cases h₂ : S.sign e.payload = e.tag
      · simp [h₁, h₂, ih]
      · simp [h₁, h₂]
    · simp [h₁]

/-- The walk passes over a chain. -/
theorem firstBroken_append [DecidableEq T] {t : T} {as bs : List (Entry P T)}
    (h : S.Chained t as) :
    S.firstBroken t (as ++ bs) = (S.firstBroken (lastTag t as) bs).map (· + as.length) := by
  induction as generalizing t with
  | nil => simp
  | cons a as ih =>
    obtain ⟨h₁, h₂, h₃⟩ := h
    rw [List.cons_append, firstBroken, if_neg (not_not.2 h₁), if_neg (not_not.2 h₂), ih h₃,
      Option.map_map, lastTag_cons, List.length_cons]
    rfl

/-- The walk stops at an entry that does not extend the chain. -/
theorem firstBroken_append_cons [DecidableEq T] {t : T} {as bs : List (Entry P T)}
    {b : Entry P T} (h : S.Chained t as)
    (hb : ¬(S.link b.payload = lastTag t as ∧ S.sign b.payload = b.tag)) :
    S.firstBroken t (as ++ b :: bs) = some as.length := by
  rw [firstBroken_append h, firstBroken]
  by_cases h₁ : S.link b.payload = lastTag t as
  · have h₂ : ¬S.sign b.payload = b.tag := fun h₂ => hb ⟨h₁, h₂⟩
    simp [h₁, h₂]
  · simp [h₁]

/-! ## Injective signatures -/

section Injective

variable (hinj : Function.Injective S.sign) (hgen : ∀ p, S.sign p ≠ S.genesis)
include hinj hgen

/-- Two prefixes of a chain that end in the same tag are equal. The induction runs from the ends of
both prefixes back to the genesis tag. -/
theorem eq_of_lastTag_eq {R as bs : List (Entry P T)} (hR : S.Chained S.genesis R)
    (ha : as <+: R) (hb : bs <+: R) (h : lastTag S.genesis as = lastTag S.genesis bs) :
    as = bs := by
  induction as using List.reverseRecOn generalizing bs with
  | nil =>
    induction bs using List.reverseRecOn with
    | nil => rfl
    | append_singleton bs b _ =>
      obtain ⟨R', rfl⟩ := hb
      obtain ⟨-, -, htag⟩ := chained_concat.1 (chained_append.1 hR).1
      rw [lastTag_nil, lastTag_concat, ← htag] at h
      exact absurd h.symm (hgen _)
  | append_singleton as a ih =>
    induction bs using List.reverseRecOn with
    | nil =>
      obtain ⟨R', rfl⟩ := ha
      obtain ⟨-, -, htag⟩ := chained_concat.1 (chained_append.1 hR).1
      rw [lastTag_nil, lastTag_concat, ← htag] at h
      exact absurd h (hgen _)
    | append_singleton bs b _ =>
      have hla : S.link a.payload = lastTag S.genesis as ∧ S.sign a.payload = a.tag := by
        obtain ⟨R', rfl⟩ := ha
        exact (chained_concat.1 (chained_append.1 hR).1).2
      have hlb : S.link b.payload = lastTag S.genesis bs ∧ S.sign b.payload = b.tag := by
        obtain ⟨R', rfl⟩ := hb
        exact (chained_concat.1 (chained_append.1 hR).1).2
      rw [lastTag_concat, lastTag_concat] at h
      have hpay : a.payload = b.payload := hinj (by rw [hla.2, hlb.2, h])
      have hab : as = bs := by
        apply ih ((List.prefix_append as [a]).trans ha) ((List.prefix_append bs [b]).trans hb)
        rw [← hla.1, ← hlb.1, hpay]
      rw [hab, Entry.ext hpay h]

/-- An entry that links to the end of `as` and signs something that was signed for the chain
`as ++ bs` is the entry that follows `as` there. -/
theorem next_unique {as bs : List (Entry P T)} {e : Entry P T}
    (hR : S.Chained S.genesis (as ++ bs)) (hlink : S.link e.payload = lastTag S.genesis as)
    (htag : S.sign e.payload = e.tag) (hmem : ∃ r ∈ as ++ bs, r.payload = e.payload) :
    ∃ bs', bs = e :: bs' := by
  obtain ⟨r, hr, hpay⟩ := hmem
  obtain ⟨pre, post, hsplit⟩ := List.append_of_mem hr
  obtain ⟨-, hr₁, hr₂, -⟩ : S.Chained S.genesis pre ∧ S.link r.payload = lastTag S.genesis pre ∧
      S.sign r.payload = r.tag ∧ S.Chained r.tag post := chained_append.1 (hsplit ▸ hR)
  have hre : r = e := Entry.ext hpay (by rw [← hr₂, ← htag, hpay])
  subst hre
  have hpre : as = pre := by
    apply eq_of_lastTag_eq hinj hgen hR (List.prefix_append as bs)
    · rw [hsplit]
      exact List.prefix_append pre _
    · rw [← hlink, ← hr₁]
  subst hpre
  exact ⟨post, List.append_cancel_left hsplit⟩

/-- **Exact tamper detection.** Let every rightly signed payload of `R'` be one of the chain `R`.
The walk over `R'` finds nothing if `R'` is a prefix of `R`, and otherwise stops right after the
longest common prefix of `R` and `R'`. -/
theorem firstBroken_of_chained [DecidableEq P] [DecidableEq T] {R R' : List (Entry P T)}
    (hR : S.Chained S.genesis R)
    (hforge : ∀ e ∈ R', S.sign e.payload = e.tag → ∃ r ∈ R, r.payload = e.payload) :
    S.firstBroken S.genesis R' =
      if R' <+: R then none else some (commonPrefix R R').length := by
  obtain ⟨as, bs, ha, hb, hdiff⟩ := exists_eq_commonPrefix_append R R'
  generalize hC : commonPrefix R R' = C at ha hb ⊢
  subst ha hb
  obtain ⟨hC', -⟩ := chained_append.1 hR
  cases bs with
  | nil =>
    rw [List.append_nil, if_pos (List.prefix_append C as)]
    exact firstBroken_eq_none_iff.2 hC'
  | cons b bs =>
    have hnext : ¬(S.link b.payload = lastTag S.genesis C ∧ S.sign b.payload = b.tag) := by
      rintro ⟨hlink, htag⟩
      obtain ⟨as', rfl⟩ := next_unique hinj hgen hR hlink htag (hforge b (by simp) htag)
      exact hdiff b as' bs rfl rfl
    have hnot : ¬ C ++ b :: bs <+: C ++ as := by
      intro h
      obtain ⟨as', rfl⟩ := (List.prefix_append_right_inj C).1 h
      exact hdiff b (bs ++ as') bs rfl rfl
    rw [if_neg hnot, firstBroken_append_cons hC' hnext]

end Injective

end Scheme

/-! ## Writers with a cached tag -/

/-- A log shared by the writers `I`, each with the tag it believes to be the last one. -/
structure Shared (I P T : Type*) where
  log : List (Entry P T)
  cache : I → T

/-- What a writer can do: look up the last tag, or append the content `c`. -/
inductive WriterOp (I C : Type*)
  | sync (i : I)
  | append (i : I) (c : C)

namespace Shared

variable {I C : Type*} [DecidableEq I] (S : Scheme P T) (payload : C → T → P)

def step (s : Shared I P T) : WriterOp I C → Shared I P T
  | .sync i => { s with cache := Function.update s.cache i (lastTag S.genesis s.log) }
  | .append i c =>
    let e := S.entry (payload c (s.cache i))
    { log := s.log ++ [e], cache := Function.update s.cache i e.tag }

def run (s : Shared I P T) (ops : List (WriterOp I C)) : Shared I P T :=
  ops.foldl (step S payload) s

/-- Every append is by a writer that has seen the whole log. `current` is the set of the writers
that have: looking the last tag up enters it, an append leaves only its writer there. -/
def SingleWriter : Set I → List (WriterOp I C) → Prop
  | _, [] => True
  | current, .sync i :: ops => SingleWriter (insert i current) ops
  | current, .append i _ :: ops => i ∈ current ∧ SingleWriter {i} ops

variable {S payload}

@[simp] theorem run_cons (s : Shared I P T) (op : WriterOp I C) (ops : List (WriterOp I C)) :
    s.run S payload (op :: ops) = (s.step S payload op).run S payload ops := rfl

theorem log_prefix_run (s : Shared I P T) (ops : List (WriterOp I C)) :
    s.log <+: (s.run S payload ops).log := by
  induction ops generalizing s with
  | nil => exact List.prefix_refl _
  | cons op ops ih =>
    refine List.IsPrefix.trans ?_ (ih _)
    cases op with
    | sync i => exact List.prefix_refl _
    | append i c => exact List.prefix_append _ _

/-- The cached tags, as far as they can be told apart: a current writer's is the last tag of the
log, any other's is the last tag of a proper prefix. -/
structure Cached (S : Scheme P T) (current : Set I) (s : Shared I P T) : Prop where
  fresh : ∀ i ∈ current, s.cache i = lastTag S.genesis s.log
  stale : ∀ i ∉ current, ∃ as, as <+: s.log ∧ as ≠ s.log ∧ s.cache i = lastTag S.genesis as

theorem Cached.sync {current : Set I} {s : Shared I P T} (h : Cached S current s) (i : I) :
    Cached S (insert i current) (s.step S payload (.sync i : WriterOp I C)) := by
  constructor
  · intro j hj
    by_cases hji : j = i
    · subst hji
      exact Function.update_self ..
    · exact (Function.update_of_ne hji ..).trans (h.fresh j (hj.resolve_left hji))
  · intro j hj
    have hji : j ≠ i := fun hji => hj (.inl hji)
    obtain ⟨as, hpre, hne, hcache⟩ := h.stale j fun hj' => hj (.inr hj')
    exact ⟨as, hpre, hne, (Function.update_of_ne hji ..).trans hcache⟩

theorem Cached.append {current : Set I} {s : Shared I P T} (h : Cached S current s) (i : I)
    (c : C) : Cached S {i} (s.step S payload (.append i c)) := by
  constructor
  · rintro j rfl
    exact (Function.update_self ..).trans (lastTag_concat ..).symm
  · intro j hji
    have hcache : (s.step S payload (.append i c)).cache j = s.cache j :=
      Function.update_of_ne hji ..
    rw [hcache]
    by_cases hj : j ∈ current
    · refine ⟨s.log, List.prefix_append _ _, ?_, h.fresh j hj⟩
      exact fun heq => by simpa [step] using congrArg List.length heq
    · obtain ⟨as, hpre, -, hcache⟩ := h.stale j hj
      refine ⟨as, hpre.trans (List.prefix_append _ _), ?_, hcache⟩
      rintro rfl
      have hlen := hpre.length_le
      simp only [step, List.length_append, List.length_singleton] at hlen
      omega

/-- **A shared log stays a chain exactly when every append is by a writer that has seen all of
it.** -/
theorem chained_run_iff (hinj : Function.Injective S.sign) (hgen : ∀ p, S.sign p ≠ S.genesis)
    (hlink : ∀ c t, S.IsTag t → S.link (payload c t) = t) {current : Set I} {s : Shared I P T}
    (hcached : Cached S current s) (hs : S.Chained S.genesis s.log) (ops : List (WriterOp I C)) :
    S.Chained S.genesis (s.run S payload ops).log ↔ SingleWriter current ops := by
  induction ops generalizing s current with
  | nil => exact iff_of_true hs trivial
  | cons op ops ih =>
    cases op with
    | sync i => exact ih (hcached.sync i) hs
    | append i c =>
      by_cases hi : i ∈ current
      · have hs' : S.Chained S.genesis (s.step S payload (.append i c)).log := by
          refine Scheme.chained_concat.2 ⟨hs, ?_, rfl⟩
          rw [hcached.fresh i hi]
          exact hlink c _ hs.isTag_lastTag
        exact (ih (hcached.append i c) hs').trans (iff_and_self.2 fun _ => hi)
      · refine iff_of_false (fun hrun => ?_) fun h => hi h.1
        obtain ⟨rest, hrest⟩ : (s.step S payload (.append i c)).log <+:
            ((s.step S payload (.append i c)).run S payload ops).log := log_prefix_run _ ops
        have hs' : S.Chained S.genesis (s.step S payload (.append i c)).log :=
          (Scheme.chained_append.1 (hrest ▸ hrun)).1
        obtain ⟨-, hlast, -⟩ := Scheme.chained_concat.1 hs'
        obtain ⟨as, hpre, hne, hcache⟩ := hcached.stale i hi
        apply hne
        apply Scheme.eq_of_lastTag_eq hinj hgen hs hpre (List.prefix_refl _)
        have htag : S.IsTag (s.cache i) := by
          obtain ⟨rest', hrest'⟩ := hpre
          rw [hcache]
          exact (Scheme.chained_append.1 (hrest' ▸ hs)).1.isTag_lastTag
        rw [← hcache, ← hlast]
        exact (hlink c _ htag).symm

end Shared

end Resilience

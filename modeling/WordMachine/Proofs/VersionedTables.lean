import Mathlib.Data.List.Induction
import Mathlib.Logic.Function.Iterate
import WordMachine.Descriptor.Version
import WordMachine.Proofs.History

/-!
# What a versioned cache answers

A `VersionedCache` in use is called to invalidate it and to hand out its rows.
`serve` are the replies to a list of calls, each with how often the parser ran,
and the cache that is left.  `LastParsed` reads off the replies alone which rows
were parsed last since the last invalidation.

Rows that are out of date stay in the cache, so that nothing but the two counts
tells them from good ones.  The invariant is `Keeps`: the count of the
invalidations has not wrapped, and no rows carry a later version.  With it,
`served_of_few` says that the replies are those of the last parse.

A `TableCache` drops what is out of date at once.  It gives the same replies
(`tableCache_agrees`), until the count comes round (`iterate_invalidate`).
-/

namespace WordMachine

/-! ## Calls -/

/-- A call of the owner of a cache. -/
inductive CacheCall (ε α : Type) where
  | invalidate
  /-- Asks for the rows, with a parser that would come to `result`. -/
  | read (result : Except ε (List α))

/-- What a call came to. -/
structure CacheReply (ε α : Type) where
  /-- The call. -/
  call : CacheCall ε α
  /-- How often its parser ran. -/
  parses : Nat
  /-- The rows or the error that it got, if it asked for rows. -/
  answer : Option (Except ε (List α))

variable {α ε : Type}

/-- A parser that counts its runs. -/
def countedParser (result : Except ε (List α)) : StateM Nat (Except ε (List α)) := do
  modify (· + 1)
  return result

/-- What a call comes to, and the cache it leaves. -/
def CacheCall.reply (call : CacheCall ε α) (c : VersionedCache α) :
    CacheReply ε α × VersionedCache α :=
  match call with
  | .invalidate => (⟨call, 0, none⟩, c.invalidate)
  | .read result =>
    let ((answer, c), parses) := (c.rows (countedParser result)).run 0
    (⟨call, parses, some answer⟩, c)

/-- The replies to calls of a new cache, and the cache they leave. -/
def serve (calls : List (CacheCall ε α)) : List (CacheReply ε α) × VersionedCache α :=
  calls.foldl
    (fun (log, c) call =>
      let (reply, c) := call.reply c
      (log ++ [reply], c))
    ([], {})

/-- Whether a call invalidates the cache. -/
def CacheCall.invalidates : CacheCall ε α → Bool
  | invalidate => true
  | read _ => false

/-- The number of invalidations among calls. -/
def invalidations (calls : List (CacheCall ε α)) : Nat := calls.countP (·.invalidates)

/-! ## The last parse -/

/-- Whether a call ran its parser and got these rows from it. -/
def CacheReply.Parsed (reply : CacheReply ε α) (rows : List α) : Prop :=
  reply.call = .read (.ok rows) ∧ reply.parses = 1

/-- The rows that were parsed last, if the cache was not invalidated since. -/
def LastParsed (log : List (CacheReply ε α)) (rows : List α) : Prop :=
  Latest log (·.Parsed rows) fun later => later.call.invalidates = true ∨ ∃ rows', later.Parsed rows'

/-! ## Fresh rows -/

namespace VersionedCache

variable {k : Type → Type} [Monad k] {c : VersionedCache α} {rows : List α} {n : Nat}

/-- The rows, if they are up to date. -/
def fresh? (c : VersionedCache α) : Option (List α) :=
  c.snapshot.bind fun (version, rows) => if version = c.version then some rows else none

theorem isStale_eq (c : VersionedCache α) : c.isStale = c.fresh?.isNone := by
  unfold isStale fresh?
  cases c.snapshot with
  | none => rfl
  | some kept =>
    obtain ⟨version, rows⟩ := kept
    by_cases same : version = c.version <;> simp [same]

theorem lastRows_of_fresh (fresh : c.fresh? = some rows) : c.lastRows = rows := by
  unfold fresh? at fresh
  unfold lastRows
  obtain ⟨⟨version, kept⟩, found, same⟩ := Option.bind_eq_some_iff.mp fresh
  rw [found]
  exact Option.some.inj ((Option.ite_none_right_eq_some.mp same).2 ▸ rfl)

theorem fresh?_keep (c : VersionedCache α) (rows : List α) : (c.keep rows).fresh? = some rows := by
  simp [fresh?, keep]

/-- Rows that are up to date are handed out, whatever the parser would do. -/
theorem rows_of_fresh (fresh : c.fresh? = some rows) (parse : k (Except ε (List α))) :
    c.rows parse = pure (.ok rows, c) := by
  have current : c.isStale = false := by rw [isStale_eq, fresh]; rfl
  unfold VersionedCache.rows
  simp [current, lastRows_of_fresh fresh]

/-- The cache that a result of the parser leaves. -/
def accept (c : VersionedCache α) : Except ε (List α) → VersionedCache α
  | .error _ => c
  | .ok rows => c.keep rows

/-- Otherwise the parser is run, and what it comes to is handed out. -/
theorem rows_of_stale (stale : c.fresh? = none) (parse : k (Except ε (List α))) :
    c.rows parse = (do let result ← parse; return (result, c.accept result)) := by
  have outdated : c.isStale = true := by rw [isStale_eq, stale]; rfl
  unfold VersionedCache.rows
  rw [if_pos outdated]
  congr 1
  funext result
  cases result with
  | error e => rfl
  | ok rows =>
    have own := lastRows_of_fresh (fresh?_keep c rows)
    simp only [own, accept]

/-! ## The invariant -/

/-- The cache was invalidated `n` times, and `current` are its rows if they are up to date. -/
structure Keeps (c : VersionedCache α) (n : Nat) (current : Option (List α)) : Prop where
  /-- The count has not wrapped. -/
  counted : c.version.toNat = n
  /-- No rows are from a version to come. -/
  past : ∀ version rows, c.snapshot = some (version, rows) → version.toNat ≤ n
  fresh : c.fresh? = current

namespace Keeps

variable {current : Option (List α)}

theorem start : Keeps ({} : VersionedCache α) 0 none := ⟨rfl, nofun, rfl⟩

/-- Old rows are told by their version, since it is less than the next one. -/
theorem invalidate (h : c.Keeps n current) (few : n + 1 < UInt64.size) :
    c.invalidate.Keeps (n + 1) none := by
  have counted : (c.version + 1).toNat = n + 1 := by
    rw [UInt64.toNat_add, h.counted]
    exact Nat.mod_eq_of_lt few
  refine ⟨counted, fun version rows kept => Nat.le_succ_of_le (h.past version rows kept), ?_⟩
  refine Option.bind_eq_none_iff.mpr fun ⟨version, rows⟩ kept => if_neg fun same => ?_
  have old := h.past version rows kept
  have now : version = c.version + 1 := same
  rw [now, counted] at old
  exact Nat.not_succ_le_self n old

theorem keep (h : c.Keeps n current) (rows : List α) : (c.keep rows).Keeps n (some rows) := by
  refine ⟨h.counted, fun version rows' kept => ?_, fresh?_keep c rows⟩
  obtain ⟨rfl, -⟩ := Prod.mk.inj (Option.some.inj kept)
  exact Nat.le_of_eq h.counted

end Keeps

end VersionedCache

/-! ## Replies -/

variable {log : List (CacheReply ε α)} {rows : List α} {c : VersionedCache α} {t : TableCache α}
  {n : Nat}

theorem reply_of_fresh (fresh : c.fresh? = some rows) (result : Except ε (List α)) :
    (CacheCall.read result).reply c = (⟨.read result, 0, some (.ok rows)⟩, c) := by
  simp only [CacheCall.reply, c.rows_of_fresh fresh]
  rfl

theorem reply_of_stale (stale : c.fresh? = none) (result : Except ε (List α)) :
    (CacheCall.read result).reply c = (⟨.read result, 1, some result⟩, c.accept result) := by
  simp only [CacheCall.reply, c.rows_of_stale stale]
  rfl

theorem serve_concat (calls : List (CacheCall ε α)) (call : CacheCall ε α) :
    serve (calls ++ [call]) =
      ((serve calls).1 ++ [(call.reply (serve calls).2).1], (call.reply (serve calls).2).2) := by
  simp only [serve, List.foldl_append, List.foldl_cons, List.foldl_nil]

theorem invalidations_concat (calls : List (CacheCall ε α)) (call : CacheCall ε α) :
    invalidations (calls ++ [call]) =
      invalidations calls + if call.invalidates then 1 else 0 := by
  simp only [invalidations, List.countP_append, List.countP_singleton]

/-! ## The cache without versions -/

/-- What a call of a `TableCache` gets, and the cache it leaves. -/
def CacheCall.tableReply (call : CacheCall ε α) (t : TableCache α) :
    Option (Except ε (List α)) × TableCache α :=
  match call with
  | .invalidate => (none, t.invalidate)
  | .read result =>
    match t.rows fun _ => result with
    | .ok (rows, t) => (some (.ok rows), t)
    | .error e => (some (.error e), t)

/-- What calls of a new `TableCache` get, and the cache they leave. -/
def serveTable (calls : List (CacheCall ε α)) : List (Option (Except ε (List α))) × TableCache α :=
  calls.foldl
    (fun (answers, t) call =>
      let (answer, t) := call.tableReply t
      (answers ++ [answer], t))
    ([], {})

theorem serveTable_concat (calls : List (CacheCall ε α)) (call : CacheCall ε α) :
    serveTable (calls ++ [call]) =
      ((serveTable calls).1 ++ [(call.tableReply (serveTable calls).2).1],
        (call.tableReply (serveTable calls).2).2) := by
  simp only [serveTable, List.foldl_append, List.foldl_cons, List.foldl_nil]

/-- A versioned cache after `n` invalidations, which replied `log`, and a `TableCache` after the
same calls.  The rows of the one that are up to date are those of the other, and they are the rows
parsed last. -/
structure Agree (log : List (CacheReply ε α)) (c : VersionedCache α)
    (answers : List (Option (Except ε (List α)))) (t : TableCache α) (n : Nat) : Prop where
  keeps : c.Keeps n t.snapshot
  last : ∀ rows, LastParsed log rows ↔ t.snapshot = some rows
  answers : log.map (·.answer) = answers

namespace Agree

variable {answers : List (Option (Except ε (List α)))}

theorem start : Agree ([] : List (CacheReply ε α)) {} [] {} 0 :=
  ⟨.start, fun _ => iff_of_false not_latest_nil nofun, rfl⟩

theorem invalidate (h : Agree log c answers t n) (few : n + 1 < UInt64.size) :
    Agree (log ++ [⟨.invalidate, 0, none⟩]) c.invalidate (answers ++ [none]) t.invalidate
      (n + 1) := by
  refine ⟨h.keeps.invalidate few, fun rows => iff_of_false (fun last => ?_) nofun, ?_⟩
  · rcases latest_concat.mp last with ⟨parsed, -⟩ | ⟨-, kept⟩
    · cases parsed
    · exact kept (.inl rfl)
  · rw [List.map_append, h.answers]
    rfl

/-- A call that runs no parser leaves the rows parsed last. -/
theorem read_of_unparsed (h : Agree log c answers t n) (result : Except ε (List α))
    (answer : Option (Except ε (List α))) :
    Agree (log ++ [⟨.read result, 0, answer⟩]) c (answers ++ [answer]) t n := by
  refine ⟨h.keeps, fun rows' => latest_concat.trans ⟨?_, fun same => .inr ?_⟩, ?_⟩
  · rintro (⟨-, parses⟩ | ⟨last, -⟩)
    · cases parses
    · exact (h.last rows').mp last
  · refine ⟨(h.last rows').mpr same, ?_⟩
    rintro (invalidates | ⟨rows'', -, parses⟩)
    · cases invalidates
    · cases parses
  · rw [List.map_append, h.answers]
    rfl

theorem read_of_error (h : Agree log c answers t n) (stale : t.snapshot = none) (e : ε) :
    Agree (log ++ [⟨.read (.error e), 1, some (.error e)⟩]) c (answers ++ [some (.error e)]) t
      n := by
  refine ⟨h.keeps, fun rows => iff_of_false (fun last => ?_) (by rw [stale]; nofun), ?_⟩
  · rcases latest_concat.mp last with ⟨parsed, -⟩ | ⟨old, -⟩
    · cases parsed
    · have kept := (h.last _).mp old
      rw [stale] at kept
      cases kept
  · rw [List.map_append, h.answers]
    rfl

theorem read_of_ok (h : Agree log c answers t n) (stale : t.snapshot = none) (rows : List α) :
    Agree (log ++ [⟨.read (.ok rows), 1, some (.ok rows)⟩]) (c.keep rows)
      (answers ++ [some (.ok rows)]) ⟨some rows⟩ n := by
  refine ⟨h.keeps.keep rows, fun rows' => latest_concat.trans ⟨?_, fun same => .inl ?_⟩, ?_⟩
  · rintro (⟨parsed, -⟩ | ⟨old, -⟩)
    · cases parsed
      rfl
    · have kept := (h.last _).mp old
      rw [stale] at kept
      cases kept
  · cases same
    exact ⟨rfl, rfl⟩
  · rw [List.map_append, h.answers]
    rfl

end Agree

/-- Over calls with few invalidations the two caches agree. -/
theorem agree_serve (calls : List (CacheCall ε α)) (few : invalidations calls < UInt64.size) :
    Agree (serve calls).1 (serve calls).2 (serveTable calls).1 (serveTable calls).2
      (invalidations calls) := by
  induction calls using List.reverseRecOn with
  | nil => exact .start
  | append_singleton calls call ih =>
    rw [invalidations_concat] at few ⊢
    rw [serve_concat, serveTable_concat]
    have before := ih (by omega)
    cases call with
    | invalidate => exact before.invalidate few
    | read result =>
      cases kept : (serveTable calls).2.snapshot with
      | some rows =>
        have same : (CacheCall.read result).tableReply (serveTable calls).2 =
            (some (.ok rows), (serveTable calls).2) := by
          simp only [CacheCall.tableReply, TableCache.rows, kept]
        rw [reply_of_fresh (before.keeps.fresh.trans kept), same]
        exact before.read_of_unparsed result _
      | none =>
        rw [reply_of_stale (before.keeps.fresh.trans kept)]
        cases result with
        | error e =>
          have same : (CacheCall.read (.error e)).tableReply (serveTable calls).2 =
              (some (.error e), (serveTable calls).2) := by
            simp only [CacheCall.tableReply, TableCache.rows, kept, Except.map]
          rw [same]
          exact before.read_of_error kept e
        | ok rows =>
          have same : (CacheCall.read (.ok rows : Except ε (List α))).tableReply
              (serveTable calls).2 = (some (.ok rows), ⟨some rows⟩) := by
            simp only [CacheCall.tableReply, TableCache.rows, kept, Except.map]
          rw [same]
          exact before.read_of_ok kept rows

/-- As long as the count does not wrap, a cache without versions does as well. -/
theorem tableCache_agrees (calls : List (CacheCall ε α))
    (few : invalidations calls < UInt64.size) :
    (serveTable calls).1 = (serve calls).1.map (·.answer) ∧
      (serveTable calls).2.snapshot = (serve calls).2.fresh? :=
  ⟨(agree_serve calls few).answers.symm, (agree_serve calls few).keeps.fresh.symm⟩

/-- When the count comes round, the rows from before are taken for good ones. -/
theorem iterate_invalidate (c : VersionedCache α) :
    VersionedCache.invalidate^[UInt64.size] c = c := by
  have counts (n : Nat) : VersionedCache.invalidate^[n] c =
      { c with version := c.version + UInt64.ofNat n } := by
    induction n with
    | zero => simp
    | succ n ih =>
      rw [Function.iterate_succ_apply', ih, VersionedCache.invalidate, UInt64.ofNat_add,
        UInt64.add_assoc]
      rfl
  have round : UInt64.ofNat UInt64.size = 0 := by decide
  rw [counts, round, UInt64.add_zero]

/-! ## The refinement -/

/-- A cache that replied `log` goes by the rows parsed last. -/
structure ServesLastParse (log : List (CacheReply ε α)) (c : VersionedCache α) : Prop where
  isStale_iff : c.isStale = true ↔ ∀ rows, ¬LastParsed log rows
  /-- A call runs its parser exactly if there are none. -/
  parses_iff (result : Except ε (List α)) :
    ((CacheCall.read result).reply c).1.parses = 1 ↔ ∀ rows, ¬LastParsed log rows
  /-- It then gets what the parser comes to. -/
  answer_of_none (none : ∀ rows, ¬LastParsed log rows) (result : Except ε (List α)) :
    ((CacheCall.read result).reply c).1.answer = some result
  isStale_of_error (none : ∀ rows, ¬LastParsed log rows) (e : ε) :
    ((CacheCall.read (.error e)).reply c).2.isStale = true
  /-- Otherwise it gets these rows, and nothing that its parser does is done. -/
  rows_of_last {rows : List α} (last : LastParsed log rows) {k : Type → Type} [Monad k]
    (parse : k (Except ε (List α))) : c.rows parse = pure (.ok rows, c)

/-- At each point of a use with few invalidations, a cache hands out the rows parsed last since the
last invalidation, and runs its parser only if there are none. -/
theorem serves_last_parse {calls before : List (CacheCall ε α)}
    (few : invalidations calls < UInt64.size) (point : before <+: calls) :
    ServesLastParse (serve before).1 (serve before).2 := by
  have fewer : invalidations before ≤ invalidations calls := point.sublist.countP_le
  have agree := agree_serve before (Nat.lt_of_le_of_lt fewer few)
  have fresh := agree.keeps.fresh
  have stale_iff : (serve before).2.fresh? = none ↔ ∀ rows, ¬LastParsed (serve before).1 rows := by
    simp only [agree.last, fresh, Option.eq_none_iff_forall_ne_some, ne_eq]
  refine ⟨?_, fun result => ?_, fun none result => ?_, fun none e => ?_, fun last k _ parse => ?_⟩
  · rw [VersionedCache.isStale_eq, Option.isNone_iff_eq_none, stale_iff]
  · rw [← stale_iff]
    cases kept : (serve before).2.fresh? with
    | none => simp [reply_of_stale kept]
    | some rows => simp [reply_of_fresh kept]
  · rw [reply_of_stale (stale_iff.mpr none)]
  · have stale := stale_iff.mpr none
    rw [reply_of_stale stale, VersionedCache.accept, VersionedCache.isStale_eq, stale]
    rfl
  · exact VersionedCache.rows_of_fresh (fresh.trans ((agree.last _).mp last)) parse

/-- A table that is read, changes, cannot be read at first, and is read again. -/
def sampleCalls : List (CacheCall FatalError Word) :=
  [.read (.ok [1, 2]), .invalidate, .read (.error (.unknownGuestSlot 5)), .read (.ok [3])]

/-- After the failure there are no rows, although the old ones are still kept.  In the end the new
ones are handed out, whatever another parser would come to. -/
theorem serves_last_parse_sampleCalls :
    invalidations sampleCalls < UInt64.size ∧ sampleCalls.take 3 <+: sampleCalls ∧
      (serve (sampleCalls.take 3)).2.lastRows = [1, 2] ∧
      (∀ rows, ¬LastParsed (serve (sampleCalls.take 3)).1 rows) ∧
      LastParsed (serve sampleCalls).1 [3] ∧
      (serve sampleCalls).2.rows (k := Id) (.error (FatalError.unknownGuestSlot 6)) =
        (.ok [3], (serve sampleCalls).2) := by
  have once : invalidations sampleCalls = 1 := rfl
  have few : invalidations sampleCalls < UInt64.size := by rw [once]; decide
  have point : sampleCalls.take 3 <+: sampleCalls := List.take_prefix 3 sampleCalls
  have replies : (serve sampleCalls).1 =
      (serve (sampleCalls.take 3)).1 ++ [⟨.read (.ok [3]), 1, some (.ok [3])⟩] := rfl
  have last : LastParsed (serve sampleCalls).1 [3] := by
    rw [replies]
    exact latest_concat.mpr (.inl ⟨rfl, rfl⟩)
  refine ⟨few, point, rfl, ?_, last, ?_⟩
  · exact (serves_last_parse few point).isStale_iff.mp rfl
  · exact (serves_last_parse few (List.prefix_refl sampleCalls)).rows_of_last last (k := Id) _

end WordMachine

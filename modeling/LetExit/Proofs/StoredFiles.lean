import LetExit.Proofs.Storing

/-!
# Files stored one after another

Requests to store files are served one after another. Storing puts a file
where no directory is, so it changes neither what is a directory nor where a
name leads, and the requests that name one place can be told from the files
at the start. In the end each place holds the data of the last request that
was granted there, and every other place holds what it did. Contents are
compared by their lengths and digests, which is as good as comparing them as
long as no two of the contents that occur collide.
-/

set_option autoImplicit false

namespace LetExit

namespace Files

/-- Two trees with the same directories, in which the same names lead to the same places. -/
structure SameWays (fs fs' : Files) : Prop where
  working : fs'.working = fs.working
  directories : ∀ place, fs'.at? place = some .directory ↔ fs.at? place = some .directory

variable {fs fs' after : Files} {name data : Bytes}

theorem SameWays.refl (fs : Files) : fs.SameWays fs := ⟨rfl, fun _ => Iff.rfl⟩

theorem SameWays.symm (h : fs.SameWays fs') : fs'.SameWays fs :=
  ⟨h.working.symm, fun place => (h.directories place).symm⟩

theorem SameWays.walk (h : fs.SameWays fs') {place goal : Place} {way : List Bytes}
    (hwalk : fs.walk place way = .ok goal) : fs'.walk place way = .ok goal := by
  induction way generalizing place with
  | nil => exact hwalk
  | cons element way ih =>
    have hplace := at?_of_walk hwalk
    rw [Files.walk, hplace] at hwalk
    rw [Files.walk, (h.directories place).2 hplace]
    dsimp only at hwalk ⊢
    split_ifs at hwalk ⊢
    · exact ih hwalk
    · exact ih hwalk
    · exact ih hwalk

theorem SameWays.resolve (h : fs.SameWays fs') {place : Place}
    (hresolve : fs.resolve name = .ok place) : fs'.resolve name = .ok place := by
  unfold Files.resolve at hresolve ⊢
  split at hresolve
  · cases hresolve
  · rw [start, h.working]
    exact h.walk hresolve

theorem SameWays.resolve_iff (h : fs.SameWays fs') (name : Bytes) (place : Place) :
    fs'.resolve name = .ok place ↔ fs.resolve name = .ok place :=
  ⟨h.symm.resolve, h.resolve⟩

theorem sameWays_of_write (h : fs.write name data = .ok after) : fs.SameWays after := by
  unfold Files.write at h
  split at h
  · cases h
  · rename_i place hplace
    obtain ⟨-, hne⟩ := resolve_of_creatable hplace
    split at h
    · cases h
    · rename_i hnot
      cases h
      refine ⟨rfl, fun other => ?_⟩
      by_cases hother : other = place
      · rw [hother, at?_put_self fs place _ hne]
        exact iff_of_false (by simp) hnot
      · rw [at?_put_of_ne fs _ hother]

theorem mem_entries_of_at? {place : Place} (h : fs.at? place = some (.file data)) :
    (place, .file data) ∈ fs.entries := by
  rw [at?] at h
  split_ifs at h
  · cases h
  · obtain ⟨⟨found, entry⟩, hfind, rfl⟩ := Option.map_eq_some_iff.1 h
    have hfound : found = place := by simpa using List.find?_some hfind
    exact hfound ▸ List.mem_of_find?_eq_some hfind

theorem exists_file_of_read (h : fs.read name = .ok data) :
    ∃ place, fs.at? place = some (.file data) := by
  obtain ⟨place, hstores⟩ := stores_of_read h
  exact ⟨place, hstores.holds⟩

end Files

structure Request where
  name : Bytes
  data : Bytes
  deriving DecidableEq, Repr

abbrev Answered := Request × StoreReport

/-- Storing where contents are compared by their lengths and digests. -/
def Host.storeByDigest {m : Type → Type} [Monad m] {Digest : Type} [DecidableEq Digest]
    (host : Host m) (digest : Bytes → Digest) (name data : Bytes) : m StoreReport := do
  match ← host.read name with
  | .ok old =>
    if old.length = data.length ∧ digest old = digest data then return ⟨false, none⟩
    else host.overwrite name data
  | .error e =>
    if e.fault = .missing then host.overwrite name data
    else return ⟨false, some (.wrap (utf8 "read old") e.toError)⟩

namespace World

abbrev Storing := Bytes → Bytes → StateM World StoreReport

def serve (store : Storing) : List Request → StateM World (List Answered)
  | [] => return []
  | r :: rest => do
    let answer ← store r.name r.data
    return (r, answer) :: (← serve store rest)

theorem serve_cons_run (store : Storing) (r : Request) (rest : List Request) (w : World) :
    (serve store (r :: rest)).run w =
      ((r, ((store r.name r.data).run w).1) ::
          ((serve store rest).run ((store r.name r.data).run w).2).1,
        ((serve store rest).run ((store r.name r.data).run w).2).2) := rfl

structure Answers (store : Storing) (before : World) (r : Request) (answer : StoreReport)
    (after : World) : Prop where
  fails_iff : (∃ e, answer.error = some e) ↔ before.files.StoreFails r.name r.data
  failed : ∀ e, answer.error = some e → answer.written = false ∧ after = before
  stored : answer.error = none →
    after.tools = before.tools ∧ ∃ place, before.files.Stores r.name r.data after.files place
  needed : answer.error = none →
    (answer.written = false ↔ before.files.read r.name = .ok r.data)
  unchanged : answer.written = false → after = before
  again : answer.error = none → (store r.name r.data).run after = (⟨false, none⟩, after)

/-- Requests answered one after another, each in the world that the one before left. -/
inductive Trace (store : Storing) : World → List Answered → World → Prop
  | nil (w : World) : Trace store w [] w
  | cons {w next after : World} {r : Request} {answer : StoreReport} {log : List Answered}
      (hfirst : Answers store w r answer next) (hrest : Trace store next log after) :
      Trace store w ((r, answer) :: log) after

def GrantedAt (fs : Files) (place : Place) (entry : Answered) : Prop :=
  entry.2.error.isNone ∧ fs.resolve entry.1.name = .ok place

instance (fs : Files) (place : Place) (entry : Answered) : Decidable (GrantedAt fs place entry) :=
  inferInstanceAs (Decidable (_ ∧ _))

def lastGranted (fs : Files) (place : Place) (log : List Answered) : Option Bytes :=
  (log.reverse.find? fun entry => GrantedAt fs place entry).map fun entry => entry.1.data

theorem lastGranted_cons (fs : Files) (place : Place) (entry : Answered) (log : List Answered) :
    lastGranted fs place (entry :: log) =
      (lastGranted fs place log).or
        (if GrantedAt fs place entry then some entry.1.data else none) := by
  rw [lastGranted, List.reverse_cons, List.find?_append, Option.map_or, lastGranted]
  by_cases hentry : GrantedAt fs place entry <;> simp [hentry]

theorem lastGranted_sameWays {fs fs' : Files} (h : fs.SameWays fs') (place : Place)
    (log : List Answered) : lastGranted fs' place log = lastGranted fs place log := by
  have hgranted : (fun entry => decide (GrantedAt fs' place entry)) =
      fun entry => decide (GrantedAt fs place entry) := by
    funext entry
    exact decide_eq_decide.2 (and_congr Iff.rfl (h.resolve_iff entry.1.name place))
  rw [lastGranted, hgranted, lastGranted]

variable {w w' : World} {name data : Bytes} {answer : StoreReport}

theorem sameWays_of_store (h : (host.store name data).run w = (answer, w')) :
    w.files.SameWays w'.files := by
  rcases host_store_cases w name data with
    ⟨-, e, hrun⟩ | ⟨-, ⟨-, hrun⟩ | ⟨files, -, hwrite, hrun⟩⟩
  all_goals rw [hrun] at h; cases h
  · exact .refl _
  · exact .refl _
  · exact Files.sameWays_of_write hwrite

/-- A granted request puts the data at the place that its name leads to, and any other request
changes nothing. -/
theorem at?_of_store (h : (host.store name data).run w = (answer, w')) (place : Place) :
    w'.files.at? place =
      if GrantedAt w.files place (⟨name, data⟩, answer) then some (.file data)
      else w.files.at? place := by
  obtain ⟨written, error⟩ := answer
  cases error with
  | some e =>
    obtain ⟨-, rfl⟩ := host_store_error h
    rw [if_neg fun hgranted => Bool.false_ne_true hgranted.1]
  | none =>
    obtain ⟨-, -, goal, hstores⟩ := host_store_ok h
    by_cases hplace : place = goal
    · rw [hplace, hstores.holds, if_pos ⟨rfl, hstores.named⟩]
    · rw [hstores.others place hplace, if_neg]
      rintro ⟨-, hresolve⟩
      exact hplace (Except.ok.inj (hresolve.symm.trans hstores.named))

theorem answers_of_store {store : Storing} {r : Request}
    (h : (host.store r.name r.data).run w = (answer, w'))
    (hagain : ∀ w : World, w.files.read r.name = .ok r.data →
      (store r.name r.data).run w = (⟨false, none⟩, w)) : Answers store w r answer w' := by
  rcases host_store_cases w r.name r.data with
    ⟨hfails, e, hrun⟩ | ⟨hstores, ⟨hread, hrun⟩ | ⟨files, hread, hwrite, hrun⟩⟩
  all_goals rw [hrun] at h; cases h
  · exact {
      fails_iff := iff_of_true ⟨e, rfl⟩ hfails
      failed := fun _ _ => ⟨rfl, rfl⟩
      stored := fun h => by cases h
      needed := fun h => by cases h
      unchanged := fun _ => rfl
      again := fun h => by cases h }
  · exact {
      fails_iff := iff_of_false (by simp) hstores
      failed := fun _ h => by cases h
      stored := fun _ => ⟨rfl, Files.stores_of_read hread⟩
      needed := fun _ => iff_of_true rfl hread
      unchanged := fun _ => rfl
      again := fun _ => hagain _ hread }
  · obtain ⟨place, hplace⟩ := Files.stores_of_write hwrite
    exact {
      fails_iff := iff_of_false (by simp) hstores
      failed := fun _ h => by cases h
      stored := fun _ => ⟨rfl, place, hplace⟩
      needed := fun _ => iff_of_false (by simp) hread
      unchanged := fun h => by cases h
      again := fun _ => hagain _ hplace.read }

/-! Whole runs. -/

theorem requests_of_serve (store : Storing) (requests : List Request) (w : World) :
    ((serve store requests).run w).1.map Prod.fst = requests := by
  induction requests generalizing w with
  | nil => rfl
  | cons r rest ih => rw [serve_cons_run, List.map_cons, ih]

theorem trace_serve {store : Storing}
    (hagain : ∀ (r : Request) (w : World), w.files.read r.name = .ok r.data →
      (store r.name r.data).run w = (⟨false, none⟩, w)) (requests : List Request) (w : World) :
    Trace store w ((serve host.store requests).run w).1 ((serve host.store requests).run w).2 := by
  induction requests generalizing w with
  | nil => exact .nil w
  | cons r rest ih =>
    rw [serve_cons_run]
    exact .cons (answers_of_store rfl (hagain r)) (ih _)

theorem at?_serve (requests : List Request) (w : World) (place : Place) :
    ((serve host.store requests).run w).2.files.at? place =
      ((lastGranted w.files place ((serve host.store requests).run w).1).map FileEntry.file).or
        (w.files.at? place) := by
  induction requests generalizing w with
  | nil => rfl
  | cons r rest ih =>
    rw [serve_cons_run]
    generalize hstep : (host.store r.name r.data).run w = step
    obtain ⟨answer, next⟩ := step
    dsimp only
    -- names lead to the same places as before the first request
    rw [ih, lastGranted_sameWays (sameWays_of_store hstep), at?_of_store hstep, lastGranted_cons,
      Option.map_or, Option.or_assoc]
    congr 1
    split_ifs <;> rfl

def Occurs (w : World) (requests : List Request) (data : Bytes) : Prop :=
  (∃ place, w.files.at? place = some (.file data)) ∨ ∃ r ∈ requests, r.data = data

theorem Occurs.of_next {r : Request} {rest : List Request} {next : World}
    (h : (host.store r.name r.data).run w = (answer, next)) (hoccurs : Occurs next rest data) :
    Occurs w (r :: rest) data := by
  rcases hoccurs with ⟨place, hplace⟩ | ⟨later, hlater, hdata⟩
  · rw [at?_of_store h] at hplace
    split_ifs at hplace
    · exact .inr ⟨r, by simp, by simpa using hplace⟩
    · exact .inl ⟨place, hplace⟩
  · exact .inr ⟨later, by simp [hlater], hdata⟩

section Digest

variable {Digest : Type} [DecidableEq Digest] {digest : Bytes → Digest}

/-- No two of the contents have the same length and the same digest. -/
def CollisionFree (digest : Bytes → Digest) (contents : Bytes → Prop) : Prop :=
  ∀ a b, contents a → contents b → a.length = b.length → digest a = digest b → a = b

theorem host_storeByDigest_run (digest : Bytes → Digest) (w : World) (name data : Bytes) :
    (host.storeByDigest digest name data).run w =
      match w.files.read name with
      | .ok old =>
        if old.length = data.length ∧ digest old = digest data then (⟨false, none⟩, w)
        else (host.overwrite name data).run w
      | .error e =>
        if e.fault = .missing then (host.overwrite name data).run w
        else (⟨false, some (.wrap (utf8 "read old") e.toError)⟩, w) := by
  rw [Host.storeByDigest, StateT.run_bind, host_read]
  cases w.files.read name with
  | ok old => exact apply_ite (fun step => StateT.run step w) _ _ _
  | error e => exact apply_ite (fun step => StateT.run step w) _ _ _

theorem storeByDigest_of_read (h : w.files.read name = .ok data) :
    (host.storeByDigest digest name data).run w = (⟨false, none⟩, w) := by
  rw [host_storeByDigest_run, h]
  exact if_pos ⟨rfl, rfl⟩

theorem storeByDigest_eq_store
    (h : ∀ old, w.files.read name = .ok old →
      old.length = data.length → digest old = digest data → old = data) :
    (host.storeByDigest digest name data).run w = (host.store name data).run w := by
  rw [host_storeByDigest_run, host_store_run]
  cases hread : w.files.read name with
  | error e => rfl
  | ok old =>
    have hsame : (old.length = data.length ∧ digest old = digest data) ↔ old = data :=
      ⟨fun hold => h old hread hold.1 hold.2, fun hold => hold ▸ ⟨rfl, rfl⟩⟩
    simp only [hsame]

theorem serve_storeByDigest {requests : List Request}
    (h : CollisionFree digest (w.Occurs requests)) :
    (serve (host.storeByDigest digest) requests).run w = (serve host.store requests).run w := by
  induction requests generalizing w with
  | nil => rfl
  | cons r rest ih =>
    have hfirst : (host.storeByDigest digest r.name r.data).run w =
        (host.store r.name r.data).run w := by
      apply storeByDigest_eq_store
      intro old hold
      exact h old r.data (.inl (Files.exists_file_of_read hold)) (.inr ⟨r, by simp, rfl⟩)
    rw [serve_cons_run, serve_cons_run, hfirst, ih]
    intro a b ha hb
    exact h a b (ha.of_next rfl) (hb.of_next rfl)

end Digest

/-- Files keep what was last stored in them, and are written only if that is needed. -/
theorem files_keep_last_stored_data {Digest : Type} [DecidableEq Digest] (digest : Bytes → Digest)
    (w : World) (requests : List Request) (h : CollisionFree digest (w.Occurs requests)) :
    (serve (host.storeByDigest digest) requests).run w = (serve host.store requests).run w ∧
    ∃ log after, (serve (host.storeByDigest digest) requests).run w = (log, after) ∧
      log.map Prod.fst = requests ∧ Trace (host.storeByDigest digest) w log after ∧
      ∀ place, after.files.at? place =
        ((lastGranted w.files place log).map FileEntry.file).or (w.files.at? place) := by
  have hserve := serve_storeByDigest h
  refine ⟨hserve, _, _, hserve, requests_of_serve _ _ _, ?_, at?_serve requests w⟩
  exact trace_serve (fun r w => storeByDigest_of_read) requests w

def fileAndDirectory : World :=
  ⟨⟨[([utf8 "d"], .directory), ([utf8 "f"], .file (utf8 "a"))], []⟩, []⟩

def fiveRequests : List Request :=
  [⟨utf8 "f", utf8 "a"⟩, ⟨utf8 "f", utf8 "b"⟩, ⟨utf8 "d/../f", utf8 "b"⟩, ⟨utf8 "d", utf8 "a"⟩,
    ⟨utf8 "d/g", utf8 "a"⟩]

/-- The BLAKE3 digests of the two contents that occur here. -/
def shortDigest (bs : Bytes) : Nat :=
  if bs = utf8 "a" then 0x17762fddd969a453925d65717ac3eea21320b66b54342fde15128d6caf21215f
  else if bs = utf8 "b" then 0x10e5cf3d3c8a4f9f3468c8cc58eea84892a22fdadbc1acb22410190044c1d553
  else 0

theorem occurs_fiveRequests {data : Bytes} (h : fileAndDirectory.Occurs fiveRequests data) :
    data = utf8 "a" ∨ data = utf8 "b" := by
  rcases h with ⟨place, hplace⟩ | ⟨r, hr, rfl⟩
  · have hmem := Files.mem_entries_of_at? hplace
    simp only [fileAndDirectory, List.mem_cons, Prod.mk.injEq, FileEntry.file.injEq, reduceCtorEq,
      and_false, false_or, List.not_mem_nil, or_false] at hmem
    exact .inl hmem.2
  · revert r
    decide

/-- The third request finds by another name what the second has written. -/
theorem second_name_finds_stored_data :
    CollisionFree shortDigest (fileAndDirectory.Occurs fiveRequests) ∧
    ∃ log after, (serve (host.storeByDigest shortDigest) fiveRequests).run fileAndDirectory =
        (log, after) ∧
      Trace (host.storeByDigest shortDigest) fileAndDirectory log after ∧
      log.map (fun entry => (entry.2.error.isNone, entry.2.written)) =
        [(true, false), (true, true), (true, false), (false, false), (true, true)] ∧
      after.files.at? [utf8 "f"] = some (.file (utf8 "b")) ∧
      after.files.at? [utf8 "d", utf8 "g"] = some (.file (utf8 "a")) := by
  have hfree : CollisionFree shortDigest (fileAndDirectory.Occurs fiveRequests) := by
    intro a b ha hb _ hdigest
    rcases occurs_fiveRequests ha with rfl | rfl <;> rcases occurs_fiveRequests hb with rfl | rfl
    · rfl
    · exact absurd hdigest (by decide)
    · exact absurd hdigest (by decide)
    · rfl
  obtain ⟨-, log, after, hrun, -, htrace, hat⟩ := files_keep_last_stored_data shortDigest _ _ hfree
  have hlog : log =
      ((serve (host.storeByDigest shortDigest) fiveRequests).run fileAndDirectory).1 :=
    (congrArg Prod.fst hrun).symm
  refine ⟨hfree, log, after, hrun, htrace, ?_, ?_, ?_⟩
  · rw [hlog]
    decide +kernel
  · rw [hat, hlog]
    decide +kernel
  · rw [hat, hlog]
    decide +kernel

end World

end LetExit

import CollectivePhaseControl.ControlPlane

/-! When retries and concurrent copies of one mutation act like a single request. -/
namespace CollectivePhaseControl
open Runs

namespace Progress

/-- Looked up without success and not yet acted upon. -/
def Waiting : Progress → Prop
  | .missed | .ready _ => True
  | _ => False

def Open : Progress → Prop
  | .arrived | .checked _ | .missed | .ready _ => True
  | _ => False

def Admitted : Progress → Prop
  | .checked _ | .missed | .ready _ => True
  | _ => False

/-- Nothing has been committed for the request, and it has no answer but an error. -/
def Untouched : Progress → Prop
  | .arrived | .checked _ | .missed | .ready _ | .refused _ _ | .crashed => True
  | _ => False

def Error : Progress → Prop
  | .refused _ _ | .failed => True
  | _ => False

theorem Waiting.admitted {x : Progress} (h : x.Waiting) : x.Admitted := by
  cases x <;> first | exact h | trivial

theorem Waiting.untouched {x : Progress} (h : x.Waiting) : x.Untouched := by
  cases x <;> first | exact h | trivial

end Progress

namespace Mutation
variable {genesis : Mutation → ℤ → Digest} {m : Mutation} {draw : Draw} {db db' : Database}
  {x y : Progress}

def Enqueues (m : Mutation) : Prop :=
  match m.endpoint with
  | .createWorkspace .. => False
  | .startAnalysis | .queued .. => True

instance (m : Mutation) : Decidable m.Enqueues := by unfold Enqueues; split <;> infer_instance

def LooksUp (m : Mutation) : Progress → Prop
  | .arrived => m.authorized = true ∧
    match m.endpoint with
    | .queued .. => False
    | .startAnalysis | .createWorkspace .. => True
  | .checked _ => True
  | _ => False

def Live (m : Mutation) (db : Database) (row : IdempotencyRow) : Prop :=
  m.record db = some row ∧ db.now < row.expiresAt

/-- What the next transaction of a request can do. -/
inductive Moves (m : Mutation) (db : Database) : Progress → Database → Progress → Prop
  | refused {x : Progress} (opening : x.Open) (status : ℕ) (code : String) :
    Moves m db x db (.refused status code)
  | checked (authorized : m.authorized = true) (queues : m.Enqueues) :
    Moves m db .arrived db (.checked m.ifMatch)
  | hit {x : Progress} (looks : m.LooksUp x) (row : IdempotencyRow) (live : m.Live db row)
    (own : row.requestDigest = m.requestDigest) : Moves m db x db (.answered row.response)
  | miss {x y : Progress} (looks : m.LooksUp x) (none : ∀ row, ¬ m.Live db row)
    (waiting : y.Waiting) : Moves m db x db y
  | passed (queues : m.Enqueues) : Moves m db .missed db (.ready m.ifMatch)
  | created (creates : ¬ m.Enqueues) (absent : m.generation db = none) (generation : Digest)
    (response : ApiResponse) :
    Moves m db .missed (m.setGeneration db generation) (.effected response)
  | enqueued (queues : m.Enqueues) (generation : Digest) (row : OutboxRow)
    (response : ApiResponse) :
    Moves m db (.ready generation) { db with outbox := db.outbox ++ [row] } (.effected response)
  | conflict (response : ApiResponse) (row : IdempotencyRow) (found : m.record db = some row)
    (other : row.requestDigest ≠ m.requestDigest) : Moves m db (.effected response) db .failed
  | repeated (response : ApiResponse) (row : IdempotencyRow) (found : m.record db = some row) :
    Moves m db (.effected response) db (.answered response)
  | unrecorded (response : ApiResponse) (absent : m.record db = none) :
    Moves m db (.effected response) db (.recording response)
  | lost (response : ApiResponse) (row : IdempotencyRow) (found : m.record db = some row) :
    Moves m db (.recording response) db .failed
  | recorded (response : ApiResponse) (absent : m.record db = none) :
    Moves m db (.recording response) (m.insert db response) (.answered response)
  | idle {x : Progress}
    (still : x.finished = true ∨ ∃ generation, x = .ready generation ∧ ¬ m.Enqueues) :
    Moves m db x db x

theorem record_insert {response : ApiResponse} :
    m.record (m.insert db response) =
      some ⟨m.requestDigest, response, db.now + 24 * 3600 * 1000000⟩ := by
  simp [record, insert]

theorem lookup_moves (looks : m.LooksUp x) (opening : x.Open) (waiting : y.Waiting) :
    Moves m db x db (m.lookup db y) := by
  unfold lookup
  split
  · rename_i none
    exact .miss looks (fun row live => by simp [Live, none] at live) waiting
  · rename_i row found
    split
    · rename_i expired
      refine .miss looks (fun other live => ?_) waiting
      have same : row = other := Option.some_inj.mp (found.symm.trans live.1)
      exact absurd live.2 (by rw [← same]; exact not_lt.mpr expired)
    · rename_i live
      split
      · rename_i own
        exact .hit looks row ⟨found, not_le.mp live⟩ own
      · exact .refused opening _ _

theorem lookup_live {row : IdempotencyRow} (live : m.Live db row)
    (own : row.requestDigest = m.requestDigest) : m.lookup db y = .answered row.response := by
  simp [lookup, live.1, own, not_le.mpr live.2]

theorem check_pass {pass : Digest → Progress} (same : m.generation db = some m.ifMatch) :
    m.check db pass = pass m.ifMatch := by
  simp [check, same]

theorem Moves.record {row : IdempotencyRow} (moves : Moves m db x db' y)
    (found : m.record db = some row) : m.record db' = some row := by
  cases moves with
  | recorded _ absent => exact absurd (found.symm.trans absent) (Option.some_ne_none row)
  | _ => exact found

theorem check_moves {pass : Digest → Progress} (opening : x.Open)
    (passes : Moves m db x db (pass m.ifMatch)) : Moves m db x db (m.check db pass) := by
  unfold check
  split
  · exact .refused opening _ _
  · split
    · rename_i same
      rw [← same]
      exact passes
    · exact .refused opening _ _

theorem advance_moves (x : Progress) :
    Moves m db x (m.advance genesis draw db x).1 (m.advance genesis draw db x).2 := by
  cases x with
  | arrived =>
    simp only [advance]
    split
    · exact .refused (x := .arrived) trivial _ _
    · rename_i allowed
      have authorized : m.authorized = true := by simpa using allowed
      split
      · rename_i routed
        exact check_moves trivial (.checked authorized (by simp [Enqueues, routed]))
      · rename_i direct
        exact lookup_moves ⟨authorized, by simp [direct]⟩ trivial trivial
      · rename_i direct
        exact lookup_moves ⟨authorized, by simp [direct]⟩ trivial trivial
  | checked generation => exact lookup_moves trivial trivial trivial
  | missed =>
    simp only [advance]
    split
    · rename_i creates
      split
      · exact .refused (x := .missed) trivial _ _
      · rename_i absent
        exact .created (by simp [Enqueues, creates]) absent _ _
    · rename_i queues
      exact check_moves trivial (.passed (by simp [Enqueues, queues]))
    · rename_i queues
      exact check_moves trivial (.passed (by simp [Enqueues, queues]))
  | ready generation =>
    simp only [advance]
    split
    · rename_i queues
      exact .enqueued (by simp [Enqueues, queues]) generation _ _
    · rename_i queues
      exact .enqueued (by simp [Enqueues, queues]) generation _ _
    · rename_i creates
      exact .idle (.inr ⟨generation, rfl, by simp [Enqueues, creates]⟩)
  | effected response =>
    simp only [advance]
    split
    · rename_i absent
      exact .unrecorded response absent
    · rename_i row found
      split
      · exact .repeated response row found
      · rename_i other
        exact .conflict response row found other
  | recording response =>
    simp only [advance]
    split
    · rename_i absent
      exact .recorded response absent
    · rename_i row found
      exact .lost response row found
  | answered | refused | failed | crashed => exact .idle (.inl rfl)

end Mutation

namespace ControlPlane
variable {genesis : Mutation → ℤ → Digest} {m : Mutation} {p q : ControlPlane}
  {s : PlaneStep} {client owner : ℕ} {response : ApiResponse}

/-- The step does not open the way to a second effect or a second answer: a lookup finds no
identical request between lookup and effect and misses no earlier effect's answer, a foreign
record under the key has not expired, and a routed retry still matches the generation. -/
def Calm (m : Mutation) (p : ControlPlane) : PlaneStep → Prop
  | .act client _ =>
    (m.LooksUp (p.clients client) →
      (∀ row, m.record p.db = some row → row.requestDigest ≠ m.requestDigest → m.Live p.db row) ∧
      (m.Enqueues → (∀ other, other ≠ client → ¬ (p.clients other).Waiting) ∧
        (p.effects ≠ [] → ∃ row, m.Live p.db row))) ∧
    (m.Enqueues → p.clients client = .arrived → ¬ m.LooksUp .arrived →
      ∀ row, m.Live p.db row → row.requestDigest = m.requestDigest →
        m.generation p.db = some m.ifMatch)
  | _ => True

structure Before (m : Mutation) (p : ControlPlane) : Prop where
  effects : p.effects = []
  clients : ∀ c, (p.clients c).Untouched
  admitted : ∀ c, (p.clients c).Admitted → m.authorized = true
  record : ∀ row, m.record p.db = some row → row.requestDigest ≠ m.requestDigest
  waiting : ∀ c, (p.clients c).Waiting → m.record p.db = none
  alone : m.Enqueues → ∀ c d, (p.clients c).Waiting → (p.clients d).Waiting → c = d

/-- One request has had its effect: it is about to record its answer, has recorded it, or was
lost in between. -/
structure After (m : Mutation) (p : ControlPlane) (owner : ℕ) (response : ApiResponse) : Prop where
  effects : p.effects = [owner]
  authorized : m.authorized = true
  others : ∀ c, c ≠ owner → (p.clients c).Untouched ∨ p.clients c = .answered response
  stage : (m.record p.db = none ∧ (p.clients owner = .effected response ∨
      p.clients owner = .recording response ∨ p.clients owner = .crashed)) ∨
    ∃ row, m.record p.db = some row ∧ row.requestDigest = m.requestDigest ∧
      row.response = response ∧ (p.clients owner = .answered response ∨ p.clients owner = .crashed)
  queued : m.Enqueues → ∀ c, ¬ (p.clients c).Waiting
  created : ¬ m.Enqueues → m.generation p.db ≠ none

theorem Before.move (before : Before m p) {db : Database} {y : Progress}
    (record : m.record db = m.record p.db) (untouched : y.Untouched)
    (admitted : y.Admitted → m.authorized = true) (waiting : y.Waiting → (p.clients client).Waiting) :
    Before m ⟨db, Function.update p.clients client y, p.effects⟩ := by
  have waits : ∀ c, (Function.update p.clients client y c).Waiting → (p.clients c).Waiting := by
    intro c h
    by_cases same : c = client
    · subst same
      exact waiting (by simpa using h)
    · simpa [same] using h
  constructor
  · exact before.effects
  · intro c
    by_cases same : c = client
    · simpa [same] using untouched
    · simpa [same] using before.clients c
  · intro c h
    by_cases same : c = client
    · exact admitted (by simpa [same] using h)
    · exact before.admitted c (by simpa [same] using h)
  · rw [record]; exact before.record
  · rw [record]; exact fun c h => before.waiting c (waits c h)
  · exact fun queues c d hc hd => before.alone queues c d (waits c hc) (waits d hd)

theorem Before.effect (before : Before m p) {db : Database} (record : m.record db = m.record p.db)
    (waiting : (p.clients client).Waiting) (created : ¬ m.Enqueues → m.generation db ≠ none) :
    After m ⟨db, Function.update p.clients client (.effected response), p.effects ++ [client]⟩
      client response where
  effects := by rw [before.effects]; rfl
  authorized := before.admitted client waiting.admitted
  others c other := .inl (by simpa [other] using before.clients c)
  stage := .inl ⟨by rw [record]; exact before.waiting client waiting, .inl (by simp)⟩
  queued queues c h := by
    by_cases same : c = client
    · simp [same, Progress.Waiting] at h
    · have also : (p.clients c).Waiting := by simpa [same] using h
      exact same (before.alone queues c client also waiting)
  created := created

theorem Before.act (before : Before m p) {draw : Draw} (calm : Calm m p (.act client draw))
    {db : Database} {y : Progress} (moves : m.Moves p.db (p.clients client) db y) :
    Before m ⟨db, Function.update p.clients client y, countEffect p.effects client y⟩ ∨
      ∃ response, After m ⟨db, Function.update p.clients client y,
        countEffect p.effects client y⟩ client response := by
  have untouched := before.clients client
  generalize here : p.clients client = x at moves untouched
  cases moves with
  | refused opening status code => exact .inl (before.move rfl trivial False.elim False.elim)
  | checked authorized queues =>
    exact .inl (before.move rfl trivial (fun _ => authorized) False.elim)
  | hit looks row live own => exact absurd own (before.record row live.1)
  | miss looks none waiting =>
    have quiet := calm.1 (here ▸ looks)
    have absent : m.record p.db = .none := by
      cases found : m.record p.db with
      | none => rfl
      | some row => exact absurd (quiet.1 row found (before.record row found)) (none row)
    have authorized : m.authorized = true := by
      cases x with
      | arrived => exact looks.1
      | checked => exact before.admitted client (by rw [here]; trivial)
      | missed | ready | effected | recording | answered | refused | failed | crashed =>
        exact looks.elim
    left
    have count : countEffect p.effects client y = p.effects := by
      cases y <;> first | rfl | exact waiting.elim
    rw [count]
    have alone : ∀ c, (Function.update p.clients client y c).Waiting → m.Enqueues → c = client := by
      intro c h queues
      by_contra other
      exact (quiet.2 queues).1 c other (by simpa [other] using h)
    constructor
    · exact before.effects
    · intro c
      by_cases same : c = client
      · simpa [same] using waiting.untouched
      · simpa [same] using before.clients c
    · exact fun _ _ => authorized
    · exact before.record
    · exact fun _ _ => absent
    · exact fun queues c d hc hd => (alone c hc queues).trans (alone d hd queues).symm
  | passed queues =>
    have waiting : (p.clients client).Waiting := by rw [here]; trivial
    exact .inl (before.move rfl trivial (fun _ => before.admitted client waiting.admitted)
      fun _ => waiting)
  | created creates absent generation response =>
    have waiting : (p.clients client).Waiting := by rw [here]; trivial
    refine .inr ⟨response, before.effect rfl waiting fun _ => ?_⟩
    simp [Mutation.generation, Mutation.setGeneration]
  | enqueued queues generation row response =>
    have waiting : (p.clients client).Waiting := by rw [here]; trivial
    exact .inr ⟨response, before.effect rfl waiting fun creates => absurd queues creates⟩
  | conflict | repeated | unrecorded | lost | recorded => exact untouched.elim
  | idle still =>
    have count : countEffect p.effects client y = p.effects := by
      cases y <;> first | rfl | exact False.elim untouched
    rw [count, ← here, Function.update_eq_self]
    exact .inl before

theorem After.move (after : After m p owner response) (other : client ≠ owner) {y : Progress}
    (fine : y.Untouched ∨ y = .answered response) (still : m.Enqueues → ¬ y.Waiting) :
    After m ⟨p.db, Function.update p.clients client y, p.effects⟩ owner response where
  effects := after.effects
  authorized := after.authorized
  others c apart := by
    by_cases same : c = client
    · simpa [same] using fine
    · simpa [same] using after.others c apart
  stage := by simpa [Ne.symm other] using after.stage
  queued queues c h := by
    by_cases same : c = client
    · exact still queues (by simpa [same] using h)
    · exact after.queued queues c (by simpa [same] using h)
  created := after.created

theorem After.finish (after : After m p owner response) {db : Database} {y : Progress}
    (generation : m.generation db = m.generation p.db) (still : ¬ y.Waiting)
    (stage : (m.record db = none ∧ (y = .effected response ∨ y = .recording response ∨
        y = .crashed)) ∨
      ∃ row, m.record db = some row ∧ row.requestDigest = m.requestDigest ∧
        row.response = response ∧ (y = .answered response ∨ y = .crashed)) :
    After m ⟨db, Function.update p.clients owner y, p.effects⟩ owner response where
  effects := after.effects
  authorized := after.authorized
  others c apart := by simpa [apart] using after.others c apart
  stage := by simpa using stage
  queued queues c h := by
    by_cases same : c = owner
    · exact still (by simpa [same] using h)
    · exact after.queued queues c (by simpa [same] using h)
  created creates := by rw [generation]; exact after.created creates

theorem After.own (after : After m p owner response) {db : Database} {y : Progress}
    (moves : m.Moves p.db (p.clients owner) db y) :
    After m ⟨db, Function.update p.clients owner y, countEffect p.effects owner y⟩ owner
      response := by
  rcases after.stage with ⟨absent, effected | recording | crashed⟩ | ⟨row, found, own, answer, rest⟩
  · rw [effected] at moves
    cases moves with
    | unrecorded => exact after.finish rfl id (.inl ⟨absent, .inr (.inl rfl)⟩)
    | conflict _ row found => simp [absent] at found
    | repeated _ row found => simp [absent] at found
    | refused opening => exact opening.elim
    | hit looks | miss looks => exact looks.elim
    | idle still => simp [Progress.finished] at still
  · rw [recording] at moves
    cases moves with
    | recorded =>
      exact after.finish rfl id (.inr ⟨_, Mutation.record_insert, rfl, rfl, .inl rfl⟩)
    | lost _ row found => simp [absent] at found
    | refused opening => exact opening.elim
    | hit looks | miss looks => exact looks.elim
    | idle still => simp [Progress.finished] at still
  · rw [crashed] at moves
    cases moves with
    | refused opening => exact opening.elim
    | hit looks | miss looks => exact looks.elim
    | idle => exact after.finish rfl id (.inl ⟨absent, .inr (.inr rfl)⟩)
  · rcases rest with answered | crashed
    · rw [answered] at moves
      cases moves with
      | refused opening => exact opening.elim
      | hit looks | miss looks => exact looks.elim
      | idle => exact after.finish rfl id (.inr ⟨row, found, own, answer, .inl rfl⟩)
    · rw [crashed] at moves
      cases moves with
      | refused opening => exact opening.elim
      | hit looks | miss looks => exact looks.elim
      | idle => exact after.finish rfl id (.inr ⟨row, found, own, answer, .inr rfl⟩)

theorem After.act (after : After m p owner response) {draw : Draw}
    (calm : Calm m p (.act client draw)) {db : Database} {y : Progress}
    (moves : m.Moves p.db (p.clients client) db y) :
    After m ⟨db, Function.update p.clients client y, countEffect p.effects client y⟩ owner
      response := by
  by_cases mine : client = owner
  · subst mine
    exact after.own moves
  have fine := after.others client mine
  generalize here : p.clients client = x at moves fine
  cases moves with
  | refused opening status code => exact after.move mine (.inl trivial) fun _ => id
  | checked authorized queues => exact after.move mine (.inl trivial) fun _ => id
  | hit looks row live own =>
    have answer : row.response = response := by
      rcases after.stage with ⟨absent, -⟩ | ⟨stored, found, -, answer, -⟩
      · exact absurd (live.1.symm.trans absent) (Option.some_ne_none row)
      · rw [Option.some_inj.mp (live.1.symm.trans found), answer]
    exact after.move mine (.inr (by rw [answer])) fun _ => id
  | miss looks none waiting =>
    have quiet := (calm.1 (here ▸ looks)).2
    have count : countEffect p.effects client y = p.effects := by
      cases y <;> first | rfl | exact waiting.elim
    rw [count]
    refine after.move mine (.inl waiting.untouched) fun queues => ?_
    obtain ⟨row, live⟩ := (quiet queues).2 (by simp [after.effects])
    exact absurd live (none row)
  | passed queues => exact absurd (by rw [here]; trivial) (after.queued queues client)
  | created creates absent => exact absurd absent (after.created creates)
  | enqueued queues => exact absurd (by rw [here]; trivial) (after.queued queues client)
  | conflict | repeated | unrecorded | lost | recorded =>
    rcases fine with untouched | answered
    · exact untouched.elim
    · cases answered
  | idle still =>
    have count : countEffect p.effects client y = p.effects := by
      rcases fine with untouched | rfl
      · cases y <;> first | rfl | exact False.elim untouched
      · rfl
    rw [count, ← here, Function.update_eq_self]
    exact after

/-- Either nothing has happened, or one request's effect and its answer stand. -/
def Sound (m : Mutation) (p : ControlPlane) : Prop :=
  Before m p ∨ ∃ owner response, After m p owner response

theorem Sound.next (sound : Sound m p) (calm : Calm m p s) : Sound m (p.step genesis m s) := by
  cases s with
  | act client draw =>
    have moves := @Mutation.advance_moves genesis m draw p.db (p.clients client)
    rcases sound with before | ⟨owner, response, after⟩
    · rcases before.act calm moves with still | ⟨response, begun⟩
      · exact .inl still
      · exact .inr ⟨client, response, begun⟩
    · exact .inr ⟨owner, response, after.act calm moves⟩
  | crash client =>
    simp only [ControlPlane.step]
    split
    · exact sound
    · rename_i going
      rcases sound with before | ⟨owner, response, after⟩
      · exact .inl (before.move rfl trivial False.elim False.elim)
      · refine .inr ⟨owner, response, ?_⟩
        by_cases mine : client = owner
        · subst mine
          refine after.finish rfl id ?_
          rcases after.stage with ⟨absent, -⟩ | ⟨row, found, own, answer, -⟩
          · exact .inl ⟨absent, .inr (.inr rfl)⟩
          · exact .inr ⟨row, found, own, answer, .inr rfl⟩
        · exact after.move mine (.inl trivial) fun _ => id
  | commit generation =>
    simp only [ControlPlane.step]
    split
    · rcases sound with before | ⟨owner, response, after⟩
      · exact .inl ⟨before.effects, before.clients, before.admitted, before.record, before.waiting,
          before.alone⟩
      · refine .inr ⟨owner, response, after.effects, after.authorized, after.others, after.stage,
          after.queued, fun _ => ?_⟩
        simp [Mutation.generation, Mutation.setGeneration]
    · exact sound
  | tick elapsed =>
    rcases sound with before | ⟨owner, response, after⟩
    · exact .inl ⟨before.effects, before.clients, before.admitted, before.record, before.waiting,
        before.alone⟩
    · exact .inr ⟨owner, response, after.effects, after.authorized, after.others, after.stage,
        after.queued, after.created⟩

theorem outbox_step (s : PlaneStep) :
    (p.step genesis m s).db.outbox.length + p.effects.length ≤
      p.db.outbox.length + (p.step genesis m s).effects.length := by
  cases s with
  | act client draw =>
    have moves := @Mutation.advance_moves genesis m draw p.db (p.clients client)
    simp only [ControlPlane.step]
    generalize m.advance genesis draw p.db (p.clients client) = next at moves
    obtain ⟨db, y⟩ := next
    generalize p.clients client = x at moves
    have counted : p.effects.length ≤ (countEffect p.effects client y).length := by
      cases y <;> simp [countEffect]
    cases moves with
    | enqueued => simp [countEffect]; omega
    | created => simp [countEffect]
    | recorded => simp [countEffect]
    | _ => simpa using counted
  | crash client =>
    simp only [ControlPlane.step]
    split <;> exact le_rfl
  | commit generation =>
    simp only [ControlPlane.step]
    split <;> exact le_rfl
  | tick elapsed => exact le_rfl

theorem record_step {row : IdempotencyRow} (s : PlaneStep) (found : m.record p.db = some row) :
    m.record (p.step genesis m s).db = some row := by
  cases s with
  | act client draw => exact (Mutation.advance_moves (p.clients client)).record found
  | crash client =>
    simp only [ControlPlane.step]
    split <;> exact found
  | commit generation =>
    simp only [ControlPlane.step]
    split <;> exact found
  | tick elapsed => exact found

theorem now_step (s : PlaneStep) : p.db.now ≤ (p.step genesis m s).db.now := by
  cases s with
  | act client draw =>
    have moves := @Mutation.advance_moves genesis m draw p.db (p.clients client)
    simp only [ControlPlane.step]
    generalize m.advance genesis draw p.db (p.clients client) = next at moves
    obtain ⟨db, y⟩ := next
    generalize p.clients client = x at moves
    cases moves <;> exact le_rfl
  | crash client =>
    simp only [ControlPlane.step]
    split <;> exact le_rfl
  | commit generation =>
    simp only [ControlPlane.step]
    split <;> exact le_rfl
  | tick elapsed => simp [ControlPlane.step]

theorem step_other {c : ℕ} (apart : s.client ≠ some c) :
    (p.step genesis m s).clients c = p.clients c := by
  cases s with
  | act client draw =>
    have other : c ≠ client := fun same => apart (congrArg some same.symm)
    simp [ControlPlane.step, other]
  | crash client =>
    have other : c ≠ client := fun same => apart (congrArg some same.symm)
    simp only [ControlPlane.step]
    split
    · rfl
    · simp [other]
  | commit generation =>
    simp only [ControlPlane.step]
    split <;> rfl
  | tick elapsed => rfl

theorem steps_other {c : ℕ} {steps : List PlaneStep} (apart : ∀ s ∈ steps, s.client ≠ some c) :
    (steps.foldl (ControlPlane.step genesis m) p).clients c = p.clients c := by
  induction steps generalizing p with
  | nil => rfl
  | cons s steps ih =>
    obtain ⟨first, rest⟩ := List.forall_mem_cons.mp apart
    rw [List.foldl_cons, ih rest, step_other first]

/-- What becomes of a request that arrives once an answer is recorded. -/
def Retried (response : ApiResponse) (x : Progress) : Prop :=
  x = .arrived ∨ (∃ generation, x = .checked generation) ∨ x = .answered response ∨ x = .crashed

theorem retried_act {draw : Draw} {row : IdempotencyRow} (queues : m.Enqueues)
    (authorized : m.authorized = true) (calm : Calm m p (.act client draw))
    (live : m.Live p.db row) (own : row.requestDigest = m.requestDigest)
    (so : Retried row.response (p.clients client)) :
    Retried row.response (m.advance genesis draw p.db (p.clients client)).2 := by
  rcases so with arrived | ⟨generation, checked⟩ | answered | crashed
  · have match' := calm.2 queues arrived
    rw [arrived]
    simp only [Mutation.advance, authorized, Bool.true_eq_false, if_false]
    split
    · rename_i routed
      have same := match' (by simp [Mutation.LooksUp, routed]) row live own
      exact .inr (.inl ⟨m.ifMatch, Mutation.check_pass same⟩)
    · exact .inr (.inr (.inl (Mutation.lookup_live live own)))
    · exact .inr (.inr (.inl (Mutation.lookup_live live own)))
  · rw [checked]
    exact .inr (.inr (.inl (Mutation.lookup_live live own)))
  · rw [answered]
    exact .inr (.inr (.inl rfl))
  · rw [crashed]
    exact .inr (.inr (.inr rfl))

theorem retried_step {row : IdempotencyRow} {c : ℕ} (sound : Sound m p) (calm : Calm m p s)
    (queues : m.Enqueues) (live : m.Live p.db row) (own : row.requestDigest = m.requestDigest)
    (so : Retried row.response (p.clients c)) :
    Retried row.response ((p.step genesis m s).clients c) := by
  by_cases mine : s.client = some c
  swap
  · rwa [step_other mine]
  cases s with
  | act client draw =>
    cases Option.some_inj.mp mine
    have authorized : m.authorized = true := by
      rcases sound with before | ⟨owner, response, after⟩
      · exact absurd own (before.record row live.1)
      · exact after.authorized
    simpa [ControlPlane.step] using retried_act queues authorized calm live own so
  | crash client =>
    cases Option.some_inj.mp mine
    simp only [ControlPlane.step]
    split
    · exact so
    · exact .inr (.inr (.inr (by simp)))
  | commit | tick => cases mine

def Plain (genesis : Mutation → ℤ → Digest) (m : Mutation) (p : ControlPlane) (s : PlaneStep)
    (q : ControlPlane) : Prop := q = p.step genesis m s

def Guarded (genesis : Mutation → ℤ → Digest) (m : Mutation) (p : ControlPlane) (s : PlaneStep)
    (q : ControlPlane) : Prop := Calm m p s ∧ q = p.step genesis m s

theorem run_sound {steps : List PlaneStep} (run : Run (Guarded genesis m) p steps q)
    (sound : Sound m p) : Sound m q :=
  run.invariant (fun _ _ _ kept guarded => guarded.2 ▸ kept.next guarded.1) sound

theorem run_plain {steps : List PlaneStep} (run : Run (Guarded genesis m) p steps q) :
    Run (Plain genesis m) p steps q :=
  run.map (f := id) fun _ _ _ guarded => guarded.2

theorem run_retried {steps : List PlaneStep} {row : IdempotencyRow} {c : ℕ}
    (run : Run (Guarded genesis m) p steps q) (sound : Sound m p) (queues : m.Enqueues)
    (found : m.record p.db = some row) (own : row.requestDigest = m.requestDigest)
    (arrived : p.clients c = .arrived) (fresh : q.db.now < row.expiresAt) :
    m.record q.db = some row ∧ Retried row.response (q.clients c) := by
  induction steps using List.reverseRecOn generalizing q with
  | nil =>
    cases run
    exact ⟨found, .inl arrived⟩
  | append_singleton steps s ih =>
    obtain ⟨last, first, calm, rfl⟩ := Run.snoc_iff.mp run
    have earlier := (now_step s).trans_lt fresh
    obtain ⟨kept, so⟩ := ih first earlier
    exact ⟨record_step s kept,
      retried_step (run_sound first sound) calm queues ⟨kept, earlier⟩ own so⟩

/-- Copies of one mutation act like a single request. -/
structure Idempotent (genesis : Mutation → ℤ → Digest) (m : Mutation) (db : Database)
    (steps : List PlaneStep) (p : ControlPlane) : Prop where
  /-- One request at most has queued its job or created the workspace. -/
  once : p.effects.length ≤ 1
  jobs : p.db.outbox.length ≤ db.outbox.length + p.effects.length
  /-- All answers are the same. -/
  same : ∀ c d r r', p.clients c = .answered r → p.clients d = .answered r' → r = r'
  /-- An error means no effect. -/
  clean : ∀ c, (p.clients c).Error → c ∉ p.effects
  /-- Of whichever endpoint that queues a job: a request that arrives when the answer is
  recorded gets it, as long as the record lasts. -/
  retried : ∀ before after mid, steps = before ++ after →
    Run (Plain genesis m) (.initial db) before mid → m.Enqueues → ∀ c row,
    mid.clients c = .arrived → m.record mid.db = some row →
    row.requestDigest = m.requestDigest → p.db.now < row.expiresAt →
    Retried row.response (p.clients c)

theorem Sound.same (sound : Sound m p) {c d : ℕ} {r r' : ApiResponse}
    (first : p.clients c = .answered r) (second : p.clients d = .answered r') : r = r' := by
  rcases sound with before | ⟨owner, response, after⟩
  · have untouched := before.clients c
    rw [first] at untouched
    exact untouched.elim
  · have one : ∀ {e s}, p.clients e = .answered s → s = response := by
      intro e s answered
      by_cases mine : e = owner
      · subst mine
        rcases after.stage with ⟨-, h | h | h⟩ | ⟨_, -, -, -, h | h⟩ <;> simp_all
      · rcases after.others e mine with untouched | also
        · rw [answered] at untouched
          exact untouched.elim
        · exact Progress.answered.inj (answered.symm.trans also)
    exact (one first).trans (one second).symm

theorem Sound.clean (sound : Sound m p) {c : ℕ} (error : (p.clients c).Error) :
    c ∉ p.effects := by
  rcases sound with before | ⟨owner, response, after⟩
  · simp [before.effects]
  · rw [after.effects, List.mem_singleton]
    rintro rfl
    rcases after.stage with ⟨-, h | h | h⟩ | ⟨_, -, -, -, h | h⟩ <;> rw [h] at error <;>
      exact error

end ControlPlane

open ControlPlane

/-- In every run whose steps are calm, whatever the endpoint, the interleaving, the commits,
the clock and the crashes. -/
theorem mutations_idempotent (genesis : Mutation → ℤ → Digest) (m : Mutation) (db : Database)
    (unused : ∀ row, m.record db = some row → row.requestDigest ≠ m.requestDigest)
    (steps : List PlaneStep) (p : ControlPlane)
    (run : Run (Guarded genesis m) (.initial db) steps p) :
    Idempotent genesis m db steps p := by
  have start : Sound m (.initial db) :=
    .inl ⟨rfl, fun _ => trivial, fun _ => False.elim, unused, fun _ => False.elim,
      fun _ _ _ => False.elim⟩
  have sound := run_sound run start
  constructor
  · rcases sound with before | ⟨owner, response, after⟩
    · simp [before.effects]
    · simp [after.effects]
  · have grown := (run_plain run).monotone (M := ℤ)
      (q := fun p => (p.effects.length : ℤ) - p.db.outbox.length) (by
        rintro p s _ rfl
        have step := @outbox_step genesis m p s
        omega)
    simp only [initial, List.length_nil] at grown
    omega
  · exact fun c d r r' => sound.same
  · exact fun c => sound.clean
  · rintro before after mid rfl first queues c row arrived found own fresh
    obtain ⟨mid', start', rest⟩ := Run.append_iff.mp run
    have same : mid' = mid := (run_plain start').unique (by rintro _ _ _ _ rfl rfl; rfl) first
    subst same
    exact (run_retried rest (run_sound start' start) queues found own arrived fresh).2

namespace ControlPlaneSample

def analysis : Mutation where
  endpoint := .startAnalysis
  tenantId := "north"
  workspaceId := "lab"
  idempotencyKey := "key"
  requestDigest := "request"
  ifMatch := "first"
  authorized := true

def database : Database where
  workspaces tenant workspace := if tenant = "north" ∧ workspace = "lab" then some "first" else none
  outbox := []
  idempotency _ _ := none
  now := 0

def genesis (_ : Mutation) (_ : ℤ) : Digest := "genesis"

def act (client : ℕ) : PlaneStep := .act client ⟨toString client, "trace"⟩

def retry : List PlaneStep := [act 0, act 0, act 0, act 0, act 0, .commit "second", act 1]

/-- Two copies look the key up before either has queued its job. -/
def race : List PlaneStep := [act 0, act 1, act 0, act 1, act 0, act 1]

theorem unused (row : IdempotencyRow) (found : analysis.record database = some row) :
    row.requestDigest ≠ analysis.requestDigest := by
  cases found

def final (steps : List PlaneStep) : ControlPlane :=
  steps.foldl (ControlPlane.step genesis analysis) (.initial database)

theorem run_plain (steps : List PlaneStep) (p : ControlPlane) :
    Run (Plain genesis analysis) p steps (steps.foldl (ControlPlane.step genesis analysis) p) := by
  induction steps generalizing p with
  | nil => exact .nil p
  | cons s steps ih => exact .cons rfl (ih _)

theorem calm_going {p : ControlPlane} {client : ℕ} (going : ¬ analysis.LooksUp (p.clients client)) :
    Calm analysis p (act client) :=
  ⟨fun looks => absurd looks going,
    fun _ arrived _ => absurd (by rw [arrived]; exact ⟨rfl, trivial⟩) going⟩

theorem run_retry : Run (Guarded genesis analysis) (.initial database) retry (final retry) := by
  have direct : analysis.LooksUp .arrived := ⟨rfl, trivial⟩
  refine .cons
    ⟨⟨fun _ => ⟨fun row found => ?_, fun _ => ⟨fun _ _ => id, fun begun => ?_⟩⟩, ?_⟩, rfl⟩ ?_
  · cases found
  · exact absurd rfl begun
  · exact fun _ _ routed => absurd direct routed
  iterate 4 refine .cons ⟨calm_going id, rfl⟩ ?_
  refine .cons ⟨trivial, rfl⟩ ?_
  refine .cons
    ⟨⟨fun _ => ⟨fun row found other => ?_, fun _ => ⟨fun other apart => ?_, fun _ => ?_⟩⟩, ?_⟩, rfl⟩
    (.nil _)
  · cases found
    exact absurd rfl other
  · by_cases first : other = 0
    · rw [first]
      exact id
    · have still : (final (retry.take 6)).clients other = .arrived :=
        steps_other (by simp [retry, act, PlaneStep.client, Ne.symm first])
      intro waiting
      have also : ((final (retry.take 6)).clients other).Waiting := waiting
      rw [still] at also
      exact also
  · exact ⟨_, rfl, by decide⟩
  · exact fun _ _ routed => absurd direct routed

end ControlPlaneSample

open ControlPlaneSample in
theorem mutations_idempotent_sample :
    (∃ response, (final retry).clients 0 = .answered response ∧
      (final retry).clients 1 = .answered response) ∧
    Idempotent genesis analysis database retry (final retry) :=
  ⟨⟨_, rfl, rfl⟩, mutations_idempotent _ _ _ unused _ _ run_retry⟩

/-- Two copies that overlap queue two jobs. -/
theorem mutations_repeat :
    ¬ ∀ (genesis : Mutation → ℤ → Digest) (m : Mutation) (db : Database),
      (∀ row, m.record db = some row → row.requestDigest ≠ m.requestDigest) →
      ∀ (steps : List PlaneStep) (p : ControlPlane),
        Run (Plain genesis m) (.initial db) steps p → Idempotent genesis m db steps p := by
  intro always
  have twice := (always ControlPlaneSample.genesis ControlPlaneSample.analysis
    ControlPlaneSample.database ControlPlaneSample.unused ControlPlaneSample.race _
    (ControlPlaneSample.run_plain _ _)).once
  exact absurd twice (by decide)

end CollectivePhaseControl

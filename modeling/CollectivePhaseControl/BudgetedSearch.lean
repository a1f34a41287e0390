import Mathlib

/-! Searches under a budget that can run out. A search is a computation with state that
keeps its state when it fails. It computes a plain function when, on every run that ends
with the budget intact, its answer is that function's; an answer given after the budget
ran out is not spoken about. -/
namespace BudgetedSearch

variable {σ ε α β : Type}

def value : EStateM.Result ε σ α → Except ε α
  | .ok a _ => .ok a
  | .error e _ => .error e

def after : EStateM.Result ε σ α → σ
  | .ok _ s => s
  | .error _ s => s

instance liftExcept : MonadLift (Except ε) (EStateM ε σ) where
  monadLift x s := match x with
    | .ok a => .ok a s
    | .error e => .error e s

def rescue (x : Except ε α) (handler : ε → Except ε α) : Except ε α :=
  match x with
  | .ok a => .ok a
  | .error e => handler e

variable (intact : σ → Prop) (I : σ → Prop)

def Keeps (m : EStateM ε σ α) : Prop :=
  ∀ s, I s → I (after (m s)) ∧ (intact (after (m s)) → intact s)

/-- From `s`, with the budget intact at the end, the answer is `spec`. -/
def ComputesAt (m : EStateM ε σ α) (spec : Except ε α) (s : σ) : Prop :=
  I (after (m s)) ∧ (intact (after (m s)) → intact s ∧ value (m s) = spec)

def Computes (m : EStateM ε σ α) (spec : Except ε α) : Prop :=
  ∀ s, I s → ComputesAt intact I m spec s

variable {intact I}

theorem Computes.keeps {m : EStateM ε σ α} {spec : Except ε α} (h : Computes intact I m spec) :
    Keeps intact I m :=
  fun s start => ⟨(h s start).1, fun done => ((h s start).2 done).1⟩

theorem computes_pure (a : α) : Computes intact I (pure a : EStateM ε σ α) (.ok a) :=
  fun _ start => ⟨start, fun done => ⟨done, rfl⟩⟩

theorem computes_throw (e : ε) : Computes intact I (throw e : EStateM ε σ α) (.error e) :=
  fun _ start => ⟨start, fun done => ⟨done, rfl⟩⟩

theorem computes_lift (x : Except ε α) :
    Computes intact I (liftM x : EStateM ε σ α) x := by
  intro s start
  cases x with
  | ok a => exact ⟨start, fun done => ⟨done, rfl⟩⟩
  | error e => exact ⟨start, fun done => ⟨done, rfl⟩⟩

theorem computes_bind {m : EStateM ε σ α} {f : α → EStateM ε σ β} {spec : Except ε α}
    {next : α → Except ε β} (head : Computes intact I m spec)
    (tail : ∀ a, Computes intact I (f a) (next a)) :
    Computes intact I (m >>= f) (spec >>= next) := by
  intro s start
  obtain ⟨kept, answer⟩ := head s start
  change ComputesAt intact I (EStateM.bind m f) _ s
  unfold ComputesAt EStateM.bind
  cases run : m s with
  | ok a t =>
    rw [run] at kept answer
    obtain ⟨kept', answer'⟩ := tail a t kept
    refine ⟨kept', fun done => ?_⟩
    obtain ⟨intactAt, result⟩ := answer' done
    obtain ⟨intactStart, head⟩ := answer intactAt
    refine ⟨intactStart, result.trans ?_⟩
    rw [← head]
    rfl
  | error e t =>
    rw [run] at kept answer
    refine ⟨kept, fun done => ?_⟩
    obtain ⟨intactStart, head⟩ := answer done
    refine ⟨intactStart, ?_⟩
    rw [← head]
    rfl

theorem computes_bind_lift {x : Except ε α} {f : α → EStateM ε σ β} {next : α → Except ε β}
    (tail : ∀ a, x = .ok a → Computes intact I (f a) (next a)) :
    Computes intact I ((liftM x : EStateM ε σ α) >>= f) (x >>= next) := by
  cases x with
  | ok a => exact tail a rfl
  | error e => exact computes_throw e

theorem computes_ok {a : α} {f : α → EStateM ε σ β} {spec : Except ε β}
    (rest : Computes intact I (f a) spec) :
    Computes intact I ((liftM (.ok a : Except ε α) : EStateM ε σ α) >>= f) spec := rest

theorem computes_rescue {m : EStateM ε σ α} {handler : ε → EStateM ε σ α} {spec : Except ε α}
    {recovered : ε → Except ε α} (head : Computes intact I m spec)
    (tail : ∀ e, Computes intact I (handler e) (recovered e)) :
    Computes intact I (tryCatch m handler) (rescue spec recovered) := by
  intro s start
  obtain ⟨kept, answer⟩ := head s start
  change ComputesAt intact I (EStateM.tryCatch m handler) _ s
  unfold ComputesAt EStateM.tryCatch
  cases run : m s with
  | ok a t =>
    rw [run] at kept answer
    refine ⟨kept, fun done => ?_⟩
    obtain ⟨intactStart, head⟩ := answer done
    refine ⟨intactStart, ?_⟩
    rw [← head]
    rfl
  | error e t =>
    rw [run] at kept answer
    obtain ⟨kept', answer'⟩ := tail e t kept
    refine ⟨kept', fun done => ?_⟩
    obtain ⟨intactAt, result⟩ := answer' done
    obtain ⟨intactStart, head⟩ := answer intactAt
    refine ⟨intactStart, result.trans ?_⟩
    rw [← head]
    rfl

theorem computes_get {f : σ → EStateM ε σ α} {spec : Except ε α}
    (each : ∀ s, I s → ComputesAt intact I (f s) spec s) :
    Computes intact I (get >>= f) spec :=
  fun s start => each s start

theorem computes_modify {f : σ → σ} (invariant : ∀ s, I s → I (f s))
    (budget : ∀ s, intact (f s) → intact s) :
    Computes intact I (modify f : EStateM ε σ PUnit) (.ok ⟨⟩) :=
  fun s start => ⟨invariant s start, fun done => ⟨budget s done, rfl⟩⟩

/-- A charge against the budget: it goes through, or the budget has run out. -/
structure Charges (intact I : σ → Prop) (m : EStateM ε σ Bool) : Prop where
  returns : ∀ s, ∃ paid t, m s = .ok paid t
  keeps : Keeps intact I m
  refused : ∀ s t, m s = .ok false t → ¬ intact t

theorem computes_charge {m : EStateM ε σ Bool} {paid early : EStateM ε σ α} {spec : Except ε α}
    (charge : Charges intact I m) (head : Computes intact I paid spec)
    (exhausted : Keeps intact I early) :
    Computes intact I (m >>= fun b => if b = true then paid else early) spec := by
  intro s start
  obtain ⟨b, t, run⟩ := charge.returns s
  obtain ⟨kept, budget⟩ := charge.keeps s start
  change ComputesAt intact I (EStateM.bind m fun b => if b = true then paid else early) _ s
  unfold ComputesAt EStateM.bind
  rw [run] at kept budget ⊢
  cases b with
  | true =>
    obtain ⟨kept', answer⟩ := head t kept
    exact ⟨kept', fun done => ⟨budget (answer done).1, (answer done).2⟩⟩
  | false =>
    obtain ⟨kept', stays⟩ := exhausted t kept
    exact ⟨kept', fun done => absurd (stays done) (charge.refused s t run)⟩

theorem keeps_pure (a : α) : Keeps intact I (pure a : EStateM ε σ α) := (computes_pure a).keeps

theorem computes_exhaust {m : EStateM ε σ PUnit} {f : PUnit → EStateM ε σ α} {spec : Except ε α}
    (keeps : Keeps intact I m) (returns : ∀ s, ∃ t, m s = .ok ⟨⟩ t ∧ ¬ intact t)
    (rest : Keeps intact I (f ⟨⟩)) : Computes intact I (m >>= f) spec := by
  intro s start
  obtain ⟨t, run, spent⟩ := returns s
  obtain ⟨kept, -⟩ := keeps s start
  change ComputesAt intact I (EStateM.bind m f) _ s
  unfold ComputesAt EStateM.bind
  rw [run] at kept ⊢
  obtain ⟨kept', stays⟩ := rest t kept
  exact ⟨kept', fun done => absurd (stays done) spent⟩

theorem computes_store (save : α → σ → σ) (due : α → σ → Bool) (answer : α → β)
    {m : EStateM ε σ α} {spec : Except ε α} (head : Computes intact I m spec)
    (sound : ∀ a s, spec = .ok a → I s → I (save a s))
    (budget : ∀ a s, intact (save a s) → intact s)
    (only : ∀ a s, due a s = true → intact s) :
    Computes intact I (m >>= fun a => do
      modify fun s => if due a s = true then save a s else s
      pure (answer a)) (answer <$> spec) := by
  intro s start
  obtain ⟨kept, found⟩ := head s start
  change ComputesAt intact I (EStateM.bind m _) _ s
  unfold ComputesAt EStateM.bind
  cases run : m s with
  | error e t =>
    rw [run] at kept found
    refine ⟨kept, fun done => ?_⟩
    obtain ⟨intactStart, head⟩ := found done
    rw [← head]
    exact ⟨intactStart, rfl⟩
  | ok a t =>
    rw [run] at kept found
    change I (if due a t = true then save a t else t) ∧
      (intact (if due a t = true then save a t else t) → intact s ∧ .ok (answer a) = answer <$> spec)
    split
    case isTrue stored =>
      refine ⟨sound a t (found (only a t stored)).2.symm kept, fun done => ?_⟩
      obtain ⟨intactStart, head⟩ := found (budget a t done)
      rw [← head]
      exact ⟨intactStart, rfl⟩
    case isFalse =>
      refine ⟨kept, fun done => ?_⟩
      obtain ⟨intactStart, head⟩ := found done
      rw [← head]
      exact ⟨intactStart, rfl⟩

variable (intact I) in
/-- What comes back is sound, and it is full when the budget is intact at the end. -/
def Delivers (m : EStateM ε σ α) (sound full : α → Prop) : Prop :=
  ∀ s a t, I s → m s = .ok a t → I t ∧ sound a ∧ (intact t → intact s ∧ full a)

section delivers
variable {sound full : α → Prop} {sound' full' : β → Prop}

theorem delivers_pure {a : α} (holds : sound a) (all : full a) :
    Delivers intact I (pure a : EStateM ε σ α) sound full := by
  rintro s _ _ start ⟨⟩
  exact ⟨start, holds, fun done => ⟨done, all⟩⟩

theorem delivers_throw (e : ε) : Delivers intact I (throw e : EStateM ε σ α) sound full := by
  rintro s a t start ⟨⟩

theorem delivers_lift {x : Except ε α} (holds : ∀ a, x = .ok a → sound a)
    (all : ∀ a, x = .ok a → full a) :
    Delivers intact I (liftM x : EStateM ε σ α) sound full := by
  intro s a t start run
  cases x with
  | error e => cases run
  | ok a' =>
    cases run
    exact ⟨start, holds _ rfl, fun done => ⟨done, all _ rfl⟩⟩

theorem delivers_known (x : Except ε α) :
    Delivers intact I (liftM x : EStateM ε σ α) (fun a => x = .ok a) fun _ => True :=
  delivers_lift (fun _ same => same) fun _ _ => trivial

theorem Delivers.mono {m : EStateM ε σ α} {sound₂ full₂ : α → Prop}
    (h : Delivers intact I m sound full) (weaker : ∀ a, sound a → sound₂ a)
    (weaker' : ∀ a, sound a → full a → full₂ a) : Delivers intact I m sound₂ full₂ := by
  intro s a t start run
  obtain ⟨kept, holds, all⟩ := h s a t start run
  exact ⟨kept, weaker a holds, fun done => ⟨(all done).1, weaker' a holds (all done).2⟩⟩

theorem delivers_bind {m : EStateM ε σ α} {f : α → EStateM ε σ β}
    (head : Delivers intact I m sound full)
    (tail : ∀ a, sound a → Delivers intact I (f a) sound' fun b => full a → full' b) :
    Delivers intact I (m >>= f) sound' full' := by
  intro s b t start run
  change EStateM.bind m f s = .ok b t at run
  unfold EStateM.bind at run
  cases first : m s with
  | error e u =>
    rw [first] at run
    cases run
  | ok a u =>
    rw [first] at run
    obtain ⟨kept, holds, all⟩ := head s a u start first
    obtain ⟨kept', holds', all'⟩ := tail a holds u b t kept run
    refine ⟨kept', holds', fun done => ?_⟩
    obtain ⟨intactAt, rest⟩ := all' done
    obtain ⟨intactStart, complete⟩ := all intactAt
    exact ⟨intactStart, rest complete⟩

theorem delivers_modify {f : σ → σ} {g : EStateM ε σ α} (invariant : ∀ s, I s → I (f s))
    (budget : ∀ s, intact (f s) → intact s) (rest : Delivers intact I g sound full) :
    Delivers intact I ((modify f : EStateM ε σ PUnit) >>= fun _ => g) sound full := by
  intro s a t start run
  obtain ⟨kept, holds, all⟩ := rest (f s) a t (invariant s start) run
  exact ⟨kept, holds, fun done => ⟨budget s (all done).1, (all done).2⟩⟩

theorem delivers_charge {m : EStateM ε σ Bool} {paid early : EStateM ε σ α}
    (charge : Charges intact I m) (head : Delivers intact I paid sound full)
    (exhausted : Delivers intact I early sound fun _ => True) :
    Delivers intact I (m >>= fun b => if b = true then paid else early) sound full := by
  intro s a t start run
  obtain ⟨b, u, first⟩ := charge.returns s
  obtain ⟨kept, budget⟩ := charge.keeps s start
  change EStateM.bind m (fun b => if b = true then paid else early) s = .ok a t at run
  unfold EStateM.bind at run
  rw [first] at run kept budget
  cases b with
  | true =>
    obtain ⟨kept', holds, all⟩ := head u a t kept run
    exact ⟨kept', holds, fun done => ⟨budget (all done).1, (all done).2⟩⟩
  | false =>
    obtain ⟨kept', holds, all⟩ := exhausted u a t kept run
    exact ⟨kept', holds, fun done => absurd (all done).1 (charge.refused s u first)⟩

theorem delivers_exhaust {m : EStateM ε σ PUnit} {g : EStateM ε σ α}
    (keeps : Keeps intact I m) (returns : ∀ s, ∃ t, m s = .ok ⟨⟩ t ∧ ¬ intact t)
    (rest : Delivers intact I g sound fun _ => True) :
    Delivers intact I (m >>= fun _ => g) sound full := by
  intro s a t start run
  obtain ⟨u, first, spent⟩ := returns s
  obtain ⟨kept, -⟩ := keeps s start
  change EStateM.bind m (fun _ => g) s = .ok a t at run
  unfold EStateM.bind at run
  rw [first] at run kept
  obtain ⟨kept', holds, all⟩ := rest u a t kept run
  exact ⟨kept', holds, fun done => absurd (all done).1 spent⟩

theorem delivers_get {f : σ → EStateM ε σ α}
    (each : ∀ s, I s → ∀ a t, f s s = .ok a t → I t ∧ sound a ∧ (intact t → intact s ∧ full a)) :
    Delivers intact I (get >>= f) sound full :=
  fun s a t start run => each s start a t run

theorem delivers_store {m : EStateM ε σ α} (save : α → σ → σ) (due : α → σ → Bool)
    (answer : α → β) (head : Delivers intact I m sound full)
    (stored : ∀ a s, sound a → full a → I s → I (save a s))
    (only : ∀ a s, due a s = true → intact s)
    (holds' : ∀ a, sound a → sound' (answer a))
    (all' : ∀ a, sound a → full a → full' (answer a)) :
    Delivers intact I (m >>= fun a => do
      modify fun s => if due a s = true then save a s else s
      pure (answer a)) sound' full' := by
  intro s b t start run
  change EStateM.bind m _ s = .ok b t at run
  unfold EStateM.bind at run
  cases first : m s with
  | error e u =>
    rw [first] at run
    cases run
  | ok a u =>
    rw [first] at run
    obtain ⟨kept, holds, all⟩ := head s a u start first
    change EStateM.Result.ok (answer a) (if due a u = true then save a u else u) = .ok b t at run
    cases run
    split
    case isTrue now =>
      obtain ⟨intactStart, complete⟩ := all (only a u now)
      exact ⟨stored a u holds complete kept, holds' a holds,
        fun _ => ⟨intactStart, all' a holds complete⟩⟩
    case isFalse =>
      refine ⟨kept, holds' a holds, fun done => ?_⟩
      obtain ⟨intactStart, complete⟩ := all done
      exact ⟨intactStart, all' a holds complete⟩

theorem delivers_mapM {γ : Type} {sound full : γ → α → Prop} {f : γ → EStateM ε σ α} :
    ∀ {xs : List γ}, (∀ x ∈ xs, Delivers intact I (f x) (sound x) (full x)) →
      Delivers intact I (xs.mapM f) (List.Forall₂ sound xs) (List.Forall₂ full xs) := by
  intro xs
  induction xs with
  | nil =>
    intro _
    rw [List.mapM_nil]
    exact delivers_pure .nil .nil
  | cons x xs ih =>
    intro each
    obtain ⟨first, rest⟩ := List.forall_mem_cons.mp each
    rw [List.mapM_cons]
    refine delivers_bind first fun a holds => ?_
    refine delivers_bind (ih rest) fun as holds' => ?_
    exact delivers_pure (.cons holds holds') fun all' all => .cons all all'

end delivers

/-- The invariant survives, errors included, and what comes back has the property. -/
def Ensures (I : σ → Prop) (m : EStateM ε σ α) (P : α → Prop) : Prop :=
  ∀ s, I s → I (after (m s)) ∧ ∀ a t, m s = .ok a t → P a

section ensures
variable {I : σ → Prop} {P : α → Prop} {Q : β → Prop}

theorem ensures_pure {a : α} (holds : P a) : Ensures I (pure a : EStateM ε σ α) P :=
  fun _ start => ⟨start, fun _ _ run => by cases run; exact holds⟩

theorem ensures_throw (e : ε) : Ensures I (throw e : EStateM ε σ α) P :=
  fun _ start => ⟨start, fun _ _ run => nomatch run⟩

theorem ensures_bind {m : EStateM ε σ α} {f : α → EStateM ε σ β} (head : Ensures I m P)
    (tail : ∀ a, P a → Ensures I (f a) Q) : Ensures I (m >>= f) Q := by
  intro s start
  obtain ⟨kept, answer⟩ := head s start
  change I (after (EStateM.bind m f s)) ∧ ∀ b t, EStateM.bind m f s = .ok b t → Q b
  unfold EStateM.bind
  cases run : m s with
  | ok a t =>
    rw [run] at kept
    exact tail a (answer a t run) t kept
  | error e t =>
    rw [run] at kept
    exact ⟨kept, fun _ _ impossible => nomatch impossible⟩

theorem ensures_bind_lift {x : Except ε α} {f : α → EStateM ε σ β}
    (tail : ∀ a, x = .ok a → Ensures I (f a) Q) :
    Ensures I ((liftM x : EStateM ε σ α) >>= f) Q := by
  cases x with
  | ok a => exact tail a rfl
  | error e => exact ensures_throw e

theorem ensures_rescue {m : EStateM ε σ α} {handler : ε → EStateM ε σ α} (head : Ensures I m P)
    (tail : ∀ e, Ensures I (handler e) P) : Ensures I (tryCatch m handler) P := by
  intro s start
  obtain ⟨kept, answer⟩ := head s start
  change I (after (EStateM.tryCatch m handler s)) ∧ ∀ a t, EStateM.tryCatch m handler s = .ok a t → P a
  unfold EStateM.tryCatch
  cases run : m s with
  | ok a t =>
    rw [run] at kept
    refine ⟨kept, fun b u same => ?_⟩
    cases same
    exact answer a t run
  | error e t =>
    rw [run] at kept
    exact tail e t kept

theorem ensures_get {f : σ → EStateM ε σ α}
    (each : ∀ s, I s → I (after (f s s)) ∧ ∀ a t, f s s = .ok a t → P a) :
    Ensures I (get >>= f) P :=
  fun s start => each s start

theorem Keeps.ensures {intact : σ → Prop} {m : EStateM ε σ α} (keeps : Keeps intact I m) :
    Ensures I m fun _ => True :=
  fun s start => ⟨(keeps s start).1, fun _ _ _ => trivial⟩

theorem ensures_modify {f : σ → σ} (invariant : ∀ s, I s → I (f s)) :
    Ensures I (modify f : EStateM ε σ PUnit) fun _ => True :=
  fun s start => ⟨invariant s start, fun _ _ _ => trivial⟩

end ensures

/-- An answer that keeps the invariant and has the property, or an error that leaves behind
what is said of it. -/
def Ended (I : σ → Prop) (P : α → Prop) (E : ε → σ → Prop) : EStateM.Result ε σ α → Prop
  | .ok a t => I t ∧ P a
  | .error e t => E e t

def Leads (I : σ → Prop) (m : EStateM ε σ α) (J : σ → Prop) (P : α → Prop) (E : ε → σ → Prop) : Prop :=
  ∀ s, I s → Ended J P E (m s)

abbrev Ends (I : σ → Prop) (m : EStateM ε σ α) (P : α → Prop) (E : ε → σ → Prop) : Prop :=
  Leads I m I P E

section leads
variable {I J K : σ → Prop} {P : α → Prop} {Q : β → Prop} {E : ε → σ → Prop}

theorem Leads.mono {m : EStateM ε σ α} {P' : α → Prop} {E' : ε → σ → Prop} (h : Leads I m J P E)
    (weaker : ∀ a, P a → P' a) (weaker' : ∀ e s, E e s → E' e s) : Leads I m J P' E' := by
  intro s start
  have ended := h s start
  cases run : m s with
  | ok a t =>
    rw [run] at ended
    exact ⟨ended.1, weaker a ended.2⟩
  | error e t =>
    rw [run] at ended
    exact weaker' e t ended

theorem ends_pure {a : α} (holds : P a) : Ends I (pure a : EStateM ε σ α) P E :=
  fun _ start => ⟨start, holds⟩

theorem ends_lift {x : Except ε α} (holds : ∀ a, x = .ok a → P a)
    (said : ∀ e, x = .error e → ∀ s, I s → E e s) : Ends I (liftM x : EStateM ε σ α) P E := by
  intro s start
  cases x with
  | ok a => exact ⟨start, holds a rfl⟩
  | error e => exact said e rfl s start

theorem leads_bind {m : EStateM ε σ α} {f : α → EStateM ε σ β} (head : Leads I m J P E)
    (tail : ∀ a, P a → Leads J (f a) K Q E) : Leads I (m >>= f) K Q E := by
  intro s start
  have ended := head s start
  change Ended K Q E (EStateM.bind m f s)
  unfold EStateM.bind
  cases run : m s with
  | ok a t =>
    rw [run] at ended
    exact tail a ended.2 t ended.1
  | error e t =>
    rw [run] at ended
    exact ended

theorem leads_ok {x : Except ε α} {a : α} {f : α → EStateM ε σ β} (answer : x = .ok a)
    (tail : Leads I (f a) K Q E) : Leads I ((liftM x : EStateM ε σ α) >>= f) K Q E := by
  subst answer
  exact tail

theorem ends_caught {m : EStateM ε σ α} {handler : ε → EStateM ε σ α} {E' : ε → σ → Prop}
    (head : Ends I m P E') (tail : ∀ e s, E' e s → Ended I P E (handler e s)) :
    Ends I (tryCatch m handler) P E := by
  intro s start
  have ended := head s start
  change Ended I P E (EStateM.tryCatch m handler s)
  unfold EStateM.tryCatch
  cases run : m s with
  | ok a t =>
    rw [run] at ended
    exact ended
  | error e t =>
    rw [run] at ended
    exact tail e t ended

theorem ends_map {m : EStateM ε σ α} {g : α → β} (head : Ends I m P E)
    (holds : ∀ a, P a → Q (g a)) : Ends I (g <$> m) Q E := by
  intro s start
  have ended := head s start
  change Ended I Q E (EStateM.map g m s)
  unfold EStateM.map
  cases run : m s with
  | ok a t =>
    rw [run] at ended
    exact ⟨ended.1, holds a ended.2⟩
  | error e t =>
    rw [run] at ended
    exact ended

theorem leads_mapM {γ δ : Type} {S : γ → δ → Prop} {R : δ → α → Prop} {C : ℕ → σ → Prop}
    {weight : δ → ℕ} {f : γ → EStateM ε σ α} {top : ℕ} (each : ∀ x y n, S x y → n + weight y ≤ top →
      Leads (C n) (f x) (C (n + weight y)) (R y) E) {xs : List γ} {ys : List δ}
    (pairs : List.Forall₂ S xs ys) : ∀ {n : ℕ}, n + (ys.map weight).sum ≤ top →
      Leads (C n) (xs.mapM f) (C (n + (ys.map weight).sum)) (List.Forall₂ R ys) E := by
  induction pairs with
  | nil =>
    intro n _
    rw [List.mapM_nil]
    exact ends_pure .nil
  | @cons x y xs ys pair rest ih =>
    intro n room
    rw [List.map_cons, List.sum_cons, ← Nat.add_assoc] at room ⊢
    rw [List.mapM_cons]
    refine leads_bind (each x y n pair (by omega)) fun a holds => ?_
    exact leads_bind (ih room) fun as holds' => ends_pure (.cons holds holds')

theorem ends_mapM {γ : Type} {R : γ → α → Prop} {f : γ → EStateM ε σ α} {xs : List γ}
    (each : ∀ x ∈ xs, Ends I (f x) (R x) E) : Ends I (xs.mapM f) (List.Forall₂ R xs) E := by
  have same : List.Forall₂ (fun x y => x = y ∧ y ∈ xs) xs xs :=
    List.forall₂_same.mpr fun _ listed => ⟨rfl, listed⟩
  have weightless : ∀ x y n, (x = y ∧ y ∈ xs) → n + (fun _ : γ => 0) y ≤
      0 + (xs.map fun _ => 0).sum → Ends I (f x) (R y) E := by
    rintro x y n ⟨rfl, listed⟩ -
    exact each x listed
  exact leads_mapM (C := fun _ => I) weightless same le_rfl

end leads

variable (intact I) in
/-- What `m` does is what `spec` does, unless a refused charge ends it with `out`. -/
def Shadows (out : ε) (m : EStateM ε σ α) (spec : Except ε α) : Prop :=
  Keeps intact I m ∧ ∀ s, I s → value (m s) = spec ∨ value (m s) = .error out

section shadows
variable {out : ε}

theorem shadows_pure (a : α) : Shadows intact I out (pure a : EStateM ε σ α) (.ok a) :=
  ⟨keeps_pure a, fun _ _ => .inl rfl⟩

theorem shadows_lift (x : Except ε α) : Shadows intact I out (liftM x : EStateM ε σ α) x := by
  refine ⟨(computes_lift x).keeps, fun s _ => .inl ?_⟩
  cases x <;> rfl

theorem shadows_bind {m : EStateM ε σ α} {f : α → EStateM ε σ β} {spec : Except ε α}
    {next : α → Except ε β} (head : Shadows intact I out m spec)
    (tail : ∀ a, Shadows intact I out (f a) (next a)) :
    Shadows intact I out (m >>= f) (spec >>= next) := by
  have run : ∀ s, I s → I (after ((m >>= f) s)) ∧
      (intact (after ((m >>= f) s)) → intact s) ∧
      (value ((m >>= f) s) = spec >>= next ∨ value ((m >>= f) s) = .error out) := by
    intro s start
    obtain ⟨kept, budget⟩ := head.1 s start
    have answer := head.2 s start
    change I (after (EStateM.bind m f s)) ∧ (intact (after (EStateM.bind m f s)) → intact s) ∧
      (value (EStateM.bind m f s) = spec >>= next ∨ value (EStateM.bind m f s) = .error out)
    unfold EStateM.bind
    cases first : m s with
    | error e t =>
      rw [first] at kept budget answer
      refine ⟨kept, budget, answer.imp (fun same => ?_) fun same => ?_⟩
      · rw [← same]
        rfl
      · cases same
        rfl
    | ok a t =>
      rw [first] at kept budget answer
      obtain ⟨kept', budget'⟩ := (tail a).1 t kept
      refine ⟨kept', fun done => budget (budget' done), ?_⟩
      rcases answer with same | impossible
      · rw [← same]
        exact (tail a).2 t kept
      · exact nomatch impossible
  exact ⟨fun s start => ⟨(run s start).1, (run s start).2.1⟩, fun s start => (run s start).2.2⟩

theorem shadows_charge {m : EStateM ε σ Bool} (charge : Charges intact I m) :
    Shadows intact I out (m >>= fun b => if b = true then pure PUnit.unit else throw out)
      (.ok PUnit.unit) := by
  let paid : EStateM ε σ PUnit := m >>= fun b => if b = true then pure PUnit.unit else throw out
  have run : ∀ s, ∃ b t, m s = .ok b t ∧
      paid s = if b = true then .ok PUnit.unit t else .error out t := by
    intro s
    obtain ⟨b, t, first⟩ := charge.returns s
    refine ⟨b, t, first, ?_⟩
    change EStateM.bind m _ s = _
    unfold EStateM.bind
    rw [first]
    cases b <;> rfl
  constructor
  · intro s start
    obtain ⟨b, t, first, answer⟩ := run s
    have kept := charge.keeps s start
    rw [first] at kept
    rw [show (m >>= fun b => if b = true then pure PUnit.unit else throw out) s = _ from answer]
    cases b <;> exact kept
  · intro s _
    obtain ⟨b, t, -, answer⟩ := run s
    rw [show (m >>= fun b => if b = true then pure PUnit.unit else throw out) s = _ from answer]
    cases b
    · exact .inr rfl
    · exact .inl rfl

theorem shadows_mapM {γ : Type} {f : γ → EStateM ε σ α} {spec : γ → Except ε α}
    (each : ∀ x, Shadows intact I out (f x) (spec x)) (xs : List γ) :
    Shadows intact I out (xs.mapM f) (xs.mapM spec) := by
  induction xs with
  | nil => exact shadows_pure []
  | cons x xs ih =>
    rw [List.mapM_cons, List.mapM_cons]
    exact shadows_bind (each x) fun a => shadows_bind ih fun as => shadows_pure (a :: as)

theorem Shadows.ends {m : EStateM ε σ α} {spec : Except ε α} (shadows : Shadows intact I out m spec) :
    Ends I m (fun a => spec = .ok a) fun e _ => spec = .error e ∨ e = out := by
  intro s start
  have kept := (shadows.1 s start).1
  have answer := shadows.2 s start
  cases run : m s with
  | ok a t =>
    rw [run] at kept answer
    exact ⟨kept, answer.elim Eq.symm fun impossible => nomatch impossible⟩
  | error e t =>
    rw [run] at answer
    exact answer.imp Eq.symm Except.error.inj

theorem delivers_caught {sound full : β → Prop} {m : EStateM ε σ α} {spec : Except ε α}
    {wrap : α → β} {handler : ε → EStateM ε σ β} (shadows : Shadows intact I out m spec)
    (answered : ∀ a, spec = .ok a → sound (wrap a) ∧ full (wrap a))
    (refused : Delivers intact I (handler out) sound full)
    (failed : ∀ e, spec = .error e → Delivers intact I (handler e) sound full) :
    Delivers intact I (tryCatch (wrap <$> m) handler) sound full := by
  intro s b t start run
  obtain ⟨kept, budget⟩ := shadows.1 s start
  have same := shadows.2 s start
  change EStateM.tryCatch (EStateM.map wrap m) handler s = .ok b t at run
  unfold EStateM.tryCatch EStateM.map at run
  cases first : m s with
  | ok a u =>
    rw [first] at run kept budget same
    cases run
    have answer : spec = .ok a := same.elim Eq.symm fun impossible => nomatch impossible
    obtain ⟨holds, all⟩ := answered a answer
    exact ⟨kept, holds, fun done => ⟨budget done, all⟩⟩
  | error e u =>
    rw [first] at run kept budget same
    have handled : Delivers intact I (handler e) sound full := by
      rcases same with same | same
      · exact failed e same.symm
      · cases same
        exact refused
    obtain ⟨kept', holds, all⟩ := handled u b t kept run
    exact ⟨kept', holds, fun done => ⟨budget (all done).1, (all done).2⟩⟩

end shadows

end BudgetedSearch

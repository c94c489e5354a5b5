import Xrossfire.Async.Effect

/-! Balances between the fields of an async and the program points about it, and
when every step preserves them. -/
namespace Xrossfire.Async
open Library

theorem Config.top_mem {c : Config} {thread : Nat} {f : Frame} (top : c.top thread = some f) :
    f ∈ c.threads.flatten := by
  obtain ⟨stack,here,head⟩ := Option.bind_eq_some_iff.mp top
  exact List.mem_flatten.mpr ⟨stack,List.mem_of_getElem? here,List.mem_of_head? head⟩

theorem Config.top_here {c : Config} {thread : Nat} {f : Frame} {rest : List Frame}
    (here : c.threads[thread]? = some (f :: rest)) : c.top thread = some f := by
  simp only [Config.top,here,Option.bind_some,List.head?_cons]

theorem owner_mentions {f : Frame} {a : Id} (owner : f.owner = some a) : a ∈ f.mentions := by
  cases f
  case user role pc last =>
    cases role <;> simp_all [Frame.owner,Frame.subject,Frame.mentions]
  all_goals simp_all [Frame.owner,Frame.subject,Frame.mentions]

theorem Known.subject {c : Config} (known : Known c) {thread : Nat} {f : Frame} {a : Id}
    (top : c.top thread = some f) (subject : f.subject = some a) : a < c.world.next := by
  apply known.frame f (Config.top_mem top)
  cases f
  case user => cases subject
  all_goals
    cases subject
    simp [Frame.mentions,Frame.subject]

/-- The frames a library step pushes are about the same async, but for a notify of its parent and a
cancel of its child. -/
theorem act_owner {thread : Nat} {x x' : Object} {f : Frame} {outcome : Outcome} {frames : List Frame}
    (step : act thread x f outcome = some (x',frames)) :
    ∀ g ∈ frames, g.owner = f.owner ∨
      (∃ p e, x.parent = some p ∧ f.kind.map Prod.snd = some .multiPhase ∧ g = .notify p e) ∨
      ∃ b, x.child = some b ∧ g = .cancel b := by
  replace step := act_acts step
  cases step
  all_goals try simp only [List.forall_mem_cons,List.not_mem_nil,false_implies,implies_true,and_true]
  all_goals simp [Frame.owner,Frame.subject,Frame.kind, *]

/-- A step on another async comes back to `a` only as its parent or as its child. -/
theorem act_foreign {thread : Nat} {a b : Id} {x x' : Object} {f : Frame} {outcome : Outcome}
    {frames : List Frame} (ne : b ≠ a) (subject : f.subject = some b)
    (step : act thread x f outcome = some (x',frames)) : ∀ g ∈ frames, g.owner = some a →
      (∃ e, x.parent = some a ∧ f.kind.map Prod.snd = some .multiPhase ∧ g = .notify a e) ∨
        x.child = some a ∧ g = .cancel a := by
  intro g member about
  rcases act_owner step g member with same | ⟨p,e,parent,kind,rfl⟩ | ⟨c,child,rfl⟩
  · rw [about] at same
    cases f with
    | link p c =>
      cases outcome <;> cases step
      cases member
    | unlink p c =>
      cases outcome <;> cases step
      cases member
    | user => cases subject
    | _ => exact absurd (Option.some.inj (subject.symm.trans same.symm)) ne
  · cases about
    exact Or.inl ⟨e,parent,kind,rfl⟩
  · cases about
    exact Or.inr ⟨child,rfl⟩

theorem request_owner {a : Id} {x x' : Object} {call : Call} {frames : List Frame}
    (step : request a x call = some (x',frames)) : ∀ g ∈ frames, g.owner = some a := by
  replace step := request_requests step
  cases step
  all_goals simp [Frame.owner,Frame.subject]

theorem arise_owner {a : Id} {x x' : Object} {cause : Cause} {frames : List Frame}
    (step : arise a x cause = some (x',frames)) : ∀ g ∈ frames, g.owner = some a := by
  replace step := arise_arises step
  cases step
  all_goals simp [Frame.owner,Frame.subject]

theorem construct_owner {a : Id} {kind : Kind} {timed : Bool} {parent : Option Id} :
    ∀ g ∈ construct a kind timed parent, g.owner = some a := by
  intro g member
  rcases construct_mem member with ⟨p,-,rfl⟩ | rfl | ⟨-,rfl⟩ <;> rfl

theorem after_owner {a b : Id} {role : Role} {pc : Nat} {last : Option Id} (call : Call)
    (owner : (Frame.user role pc last).owner = some a) (ne : b ≠ a) : role.after b call = role := by
  cases role with
  | main | completed _ _ | entered _ => rfl
  | procedure a' phase e handed =>
    cases owner
    cases call <;> simp [Role.after,ne]

structure Account where
  object : Object → Int
  frame : Frame → Int

namespace Account

def of (k : Account) (x : Object) (frames : List Frame) : Int := k.object x + (frames.map k.frame).sum

def balance (k : Account) (c : Config) (a : Id) : Int := k.object (c.world.asyncs a) + weigh k.frame c.threads

structure About (k : Account) (a : Id) (v : Int) : Prop where
  owner : ∀ g, g.owner ≠ some a → k.frame g = 0
  resume : ∀ role pc last pc' last', k.frame (.user role pc last) = k.frame (.user role pc' last')
  store : ∀ x phase, k.object {x with nextPhase := phase} = k.object x
  finish : ∀ err role, ((finish err role).map k.frame).sum = k.frame (.user role 0 none)
  call : ∀ x x' frames role call, request a x call = some (x',frames) →
    k.of x' (frames ++ [.user (role.after a call) 0 none]) = k.of x [.user role 0 none]
  arise : ∀ x x' frames cause, Async.arise a x cause = some (x',frames) → k.of x' frames = k.of x []
  new : ∀ kind timed parent, kind ≠ .wait →
    k.of (fresh kind timed parent none) (construct a kind timed parent) = v
  unmade : ∀ parent, k.of (Async.unmade parent) [] = v
  waitNew : ∀ parent child, k.of (freshWait parent child) (construct a .wait true none) = v

variable {k : Account} {a : Id} {v : Int}

theorem of_append (k : Account) (x : Object) (fs gs : List Frame) :
    k.of x (fs ++ gs) = k.of x fs + (gs.map k.frame).sum := by
  rw [of,of,List.map_append,List.sum_append,Int.add_assoc]

theorem balance_set {c : Config} {thread : Nat} {f : Frame} {rest frames : List Frame}
    (here : c.threads[thread]? = some (f :: rest)) {w : World}
    (same : k.of (w.asyncs a) frames = k.of (c.world.asyncs a) [f]) :
    k.balance ⟨w,c.threads.set thread (frames ++ rest)⟩ a = k.balance c a := by
  have moved := weigh_set k.frame here frames
  simp only [of,List.map_cons,List.map_nil,List.sum_cons,List.sum_nil] at same
  simp only [balance]
  omega

theorem balance_spawn {c : Config} {frames : List Frame} {w : World}
    (same : k.of (w.asyncs a) frames = k.of (c.world.asyncs a) []) :
    k.balance ⟨w,c.threads ++ [frames]⟩ a = k.balance c a := by
  have moved : weigh k.frame (c.threads ++ [frames]) = weigh k.frame c.threads + (frames.map k.frame).sum :=
    weigh_spawn k.frame frames
  simp only [of,List.map_nil,List.sum_nil] at same
  simp only [balance]
  omega

theorem About.zero (about : k.About a v) {c : Config} (known : Known c) (le : c.world.next ≤ a) :
    weigh k.frame c.threads = 0 := by
  apply weigh_zero
  intro g member
  apply about.owner
  intro owner
  exact absurd (known.frame g member a (owner_mentions owner)) (Nat.not_lt.mpr le)

theorem sum_zero {frames : List Frame} (zero : ∀ g ∈ frames, k.frame g = 0) : (frames.map k.frame).sum = 0 := by
  apply List.sum_eq_zero
  intro n member
  obtain ⟨g,inside,rfl⟩ := List.mem_map.mp member
  exact zero g inside

theorem About.after (about : k.About a v) {b : Id} (ne : b ≠ a) (role : Role) (call : Call) (pc : Nat)
    (last : Option Id) : k.frame (.user (role.after b call) pc last) = k.frame (.user role pc last) := by
  by_cases owner : (Frame.user role pc last).owner = some a
  · rw [after_owner call owner ne]
  · rw [about.owner _ owner]
    apply about.owner
    cases role <;> cases call <;> exact owner

/-- Steps on other asyncs leave an account alone that counts neither notifies nor cancels. -/
theorem About.quiet (about : k.About a v) (notify : ∀ e, k.frame (.notify a e) = 0)
    (cancel : k.frame (.cancel a) = 0) (link : ∀ p b, k.frame (.link p b) = 0)
    (unlink : ∀ p b, k.frame (.unlink p b) = 0) {thread : Nat} {f : Frame} {outcome : Outcome} {b : Id}
    {x x' : Object} {frames : List Frame} (ne : b ≠ a) (subject : f.subject = some b)
    (step : act thread x f outcome = some (x',frames)) : (frames.map k.frame).sum = k.frame f := by
  have zero : k.frame f = 0 := by
    cases f with
    | link p c => exact link p c
    | unlink p c => exact unlink p c
    | user => cases subject
    | _ => exact about.owner _ (fun owner => ne (Option.some.inj (subject.symm.trans owner)))
  rw [zero]
  apply sum_zero
  intro g member
  by_cases owner : g.owner = some a
  · rcases act_foreign ne subject step g member owner with ⟨e,-,-,rfl⟩ | ⟨-,rfl⟩
    · exact notify e
    · exact cancel
  · exact about.owner g owner

/-- A new async starts with the balance `v`; the others keep theirs. -/
theorem About.make (about : k.About a v) {c : Config} (known : Known c) {thread : Nat} {role : Role} {pc : Nat}
    {last last' : Option Id} {rest frames : List Frame} {x : Object}
    (here : c.threads[thread]? = some (.user role pc last :: rest))
    (owners : ∀ g ∈ frames, g.owner = some c.world.next) (value : a = c.world.next → k.of x frames = v)
    (start : a < c.world.next → k.balance c a = v) (made : a < c.world.next + 1) :
    k.balance ⟨c.world.make x,c.threads.set thread (frames ++ [Frame.user role (pc + 1) last'] ++ rest)⟩ a = v := by
  have same := about.resume role (pc + 1) last' pc last
  rcases Nat.lt_or_eq_of_le (Nat.le_of_lt_succ made) with old | rfl
  · rw [← start old]
    apply balance_set here
    rw [World.make_asyncs_of_lt old,of_append,of,sum_zero]
    · simp only [of,List.map_cons,List.map_nil,List.sum_cons,List.sum_nil,same]
      omega
    · intro g member
      apply about.owner
      rw [owners g member]
      intro eq
      exact absurd (Option.some.inj eq) (Nat.ne_of_gt old)
  · have moved := weigh_set k.frame here (frames ++ [Frame.user role (pc + 1) last'])
    have none := about.zero known (Nat.le_refl _)
    have start := value rfl
    rw [List.map_append,List.sum_append] at moved
    simp only [List.map_cons,List.map_nil,List.sum_cons,List.sum_nil] at moved
    simp only [of] at start
    simp only [balance,World.make_asyncs_self]
    omega

/-- A balance survives a step when the steps on the async itself preserve it and those on others leave
it alone. -/
theorem About.effect (about : k.About a v) {c c' : Config} {event : Event} (known : Known c)
    (effect : Effect c event c')
    (own : ∀ thread f outcome x frames, c.top thread = some f → event = .run thread outcome →
      f.subject = some a → act thread (c.world.asyncs a) f outcome = some (x,frames) →
      k.of x frames = k.of (c.world.asyncs a) [f])
    (other : ∀ thread f outcome b x frames, c.top thread = some f → event = .run thread outcome →
      b ≠ a → f.subject = some b → act thread (c.world.asyncs b) f outcome = some (x,frames) →
      (frames.map k.frame).sum = k.frame f)
    (start : a < c.world.next → k.balance c a = v) (made : a < c'.world.next) : k.balance c' a = v := by
  cases effect with
  | @library thread f rest outcome b x frames here subject below step =>
    rw [← start made]
    apply balance_set here
    have top := Config.top_here here
    by_cases same : b = a
    · subst same
      rw [World.set_asyncs_self]
      exact own thread f outcome x frames top rfl subject step
    · rw [World.set_asyncs_of_ne (Ne.symm same),of,other thread f outcome b x frames top rfl same subject step]
      simp only [of,List.map_cons,List.map_nil,List.sum_cons,List.sum_nil,Int.add_zero]
  | @call thread role pc last rest b call x frames here below step =>
    rw [← start made]
    apply balance_set here
    by_cases same : b = a
    · subst same
      have kept := about.call _ _ _ role call step
      simp only [of,List.map_append,List.sum_append,List.map_cons,List.map_nil,List.sum_cons,List.sum_nil,
        World.set_asyncs_self] at kept ⊢
      rw [about.resume role pc last 0 none,about.resume (role.after b call) (pc + 1) last 0 none]
      exact kept
    · have zero : (frames.map k.frame).sum = 0 := by
        apply sum_zero
        intro g member
        apply about.owner
        rw [request_owner step g member]
        exact fun eq => same (Option.some.inj eq)
      simp only [of,List.map_append,List.sum_append,List.map_cons,List.map_nil,List.sum_cons,List.sum_nil,
        World.set_asyncs_of_ne (Ne.symm same),zero,about.after same,about.resume role (pc + 1) last pc last]
      omega
  | new here kind below =>
    apply about.make known here construct_owner _ start made
    rintro rfl
    exact about.new _ _ _ kind
  | @unmade _ role pc last rest timed parent here below =>
    change k.balance ⟨_,c.threads.set _ ([] ++ [Frame.user role (pc + 1) none] ++ rest)⟩ a = v
    apply about.make known here (fun g member => absurd member List.not_mem_nil) _ start made
    rintro rfl
    exact about.unmade _
  | @refused _ role pc last rest _ _ here =>
    rw [← start made]
    apply balance_set here
    simp only [of,List.map_cons,List.map_nil,about.resume role (pc + 1) none pc last]
  | waitNew here below below' =>
    apply about.make known here construct_owner _ start made
    rintro rfl
    exact about.waitNew _ _
  | @store _ b phase phase' e handed pc last rest here below =>
    rw [← start made]
    apply balance_set here
    simp only [of,List.map_cons,List.map_nil,about.resume _ (pc + 1) last pc last]
    by_cases same : b = a
    · subst same
      rw [World.set_asyncs_self,about.store]
    · rw [World.set_asyncs_of_ne (Ne.symm same)]
  | @finish _ role pc last rest err here =>
    rw [← start made]
    apply balance_set here
    simp only [of,about.finish,List.map_cons,List.map_nil,List.sum_cons,List.sum_nil,Int.add_zero,
      about.resume role pc last 0 none]
  | spawn =>
    rw [← start made]
    apply balance_spawn
    have zero : k.frame (.user .main 0 none) = 0 := about.owner _ (by simp [Frame.owner,Frame.subject])
    simp only [of,List.map_cons,List.map_nil,List.sum_cons,List.sum_nil,zero,Int.add_zero]
  | @arise b cause x frames below step =>
    rw [← start made]
    apply balance_spawn
    by_cases same : b = a
    · subst same
      rw [World.set_asyncs_self]
      exact about.arise _ _ _ cause step
    · rw [World.set_asyncs_of_ne (Ne.symm same),of,sum_zero]
      · simp only [of,List.map_nil,List.sum_nil]
      · intro g member
        apply about.owner
        rw [arise_owner step g member]
        exact fun eq => same (Option.some.inj eq)

end Account

/-! ## What each program point says about the async -/

structure Each (P : Object → Frame → Prop) (a : Id) : Prop where
  owner : ∀ x g, g.owner ≠ some a → P x g
  resume : ∀ x role pc last pc' last', P x (.user role pc last) → P x (.user role pc' last')
  after : ∀ x role b call pc last, P x (.user role pc last) → P x (.user (role.after b call) pc last)
  store : ∀ x phase g, P x g → P {x with nextPhase := phase} g
  finish : ∀ x err role, P x (.user role 0 none) → ∀ g ∈ finish err role, P x g
  arise : ∀ x x' frames cause, Async.arise a x cause = some (x',frames) →
    (∀ g ∈ frames, P x' g) ∧ ∀ g, P x g → P x' g
  new : ∀ kind timed parent, ∀ g ∈ construct a kind timed parent,
    P (fresh kind timed parent none) g
  waitNew : ∀ parent child, ∀ g ∈ construct a .wait true none, P (freshWait parent child) g

variable {P : Object → Frame → Prop} {a : Id}

def Config.Each (c : Config) (P : Object → Frame → Prop) (a : Id) : Prop :=
  ∀ f ∈ c.threads.flatten, P (c.world.asyncs a) f

theorem Config.Each.set {c : Config} {thread : Nat} {f : Frame} {rest frames : List Frame} {w : World}
    (holds : c.Each P a) (here : c.threads[thread]? = some (f :: rest))
    (pushed : ∀ g ∈ frames, P (w.asyncs a) g)
    (kept : ∀ g ∈ c.threads.flatten, P (c.world.asyncs a) g → P (w.asyncs a) g) :
    Config.Each ⟨w,c.threads.set thread (frames ++ rest)⟩ P a := by
  intro g member
  rcases mem_set here member with new | old
  · exact pushed g new
  · exact kept g old (holds g old)

theorem Each.make (each : Each P a) {c : Config} (known : Known c) {thread : Nat} {role : Role} {pc : Nat}
    {last last' : Option Id} {rest frames : List Frame} {x : Object} (holds : a < c.world.next → c.Each P a)
    (here : c.threads[thread]? = some (.user role pc last :: rest))
    (owners : ∀ g ∈ frames, g.owner = some c.world.next) (value : a = c.world.next → ∀ g ∈ frames, P x g)
    (made : a < c.world.next + 1) :
    Config.Each ⟨c.world.make x,c.threads.set thread (frames ++ [Frame.user role (pc + 1) last'] ++ rest)⟩ P a := by
  intro g member
  rcases Nat.lt_or_eq_of_le (Nat.le_of_lt_succ made) with lt | rfl
  · change P ((c.world.make x).asyncs a) g
    rw [World.make_asyncs_of_lt lt]
    rcases mem_set here member with new | old
    · rcases List.mem_append.mp new with lib | own
      · apply each.owner
        rw [owners g lib]
        exact fun eq => absurd (Option.some.inj eq) (Nat.ne_of_gt lt)
      · rw [List.mem_singleton.mp own]
        exact each.resume _ role pc last _ _ (holds lt _ (mem_top here))
    · exact holds lt g old
  · have outside (g : Frame) (old : g ∈ c.threads.flatten) : g.owner ≠ some c.world.next := by
      intro owner
      exact absurd (known.frame g old _ (owner_mentions owner)) (Nat.lt_irrefl _)
    rcases mem_set here member with new | old
    · rcases List.mem_append.mp new with lib | own
      · change P ((c.world.make x).asyncs c.world.next) g
        rw [World.make_asyncs_self]
        exact value rfl g lib
      · rw [List.mem_singleton.mp own]
        apply each.resume _ role pc last
        exact each.owner _ _ (outside _ (mem_top here))
    · exact each.owner _ _ (outside g old)

/-- A property of the program points survives a step when the calls on the async keep it. -/
theorem Each.effect (each : Each P a) {c c' : Config} {event : Event} (known : Known c)
    (effect : Effect c event c')
    (own : ∀ thread f outcome x frames, c.top thread = some f → event = .run thread outcome →
      f.subject = some a → act thread (c.world.asyncs a) f outcome = some (x,frames) →
      (∀ g ∈ frames, P x g) ∧ ∀ g ∈ c.threads.flatten, P (c.world.asyncs a) g → P x g)
    (other : ∀ thread f outcome b x frames, c.top thread = some f → event = .run thread outcome →
      b ≠ a → f.subject = some b → act thread (c.world.asyncs b) f outcome = some (x,frames) →
      ∀ g ∈ frames, P (c.world.asyncs a) g)
    (call : ∀ thread call x frames, event = .run thread (.acts (.call a call)) →
      request a (c.world.asyncs a) call = some (x,frames) →
      (∀ g ∈ frames, P x g) ∧ ∀ g ∈ c.threads.flatten, P (c.world.asyncs a) g → P x g)
    (holds : a < c.world.next → c.Each P a) (made : a < c'.world.next) : c'.Each P a := by
  cases effect with
  | @library thread f rest outcome b x frames here subject below step =>
    have top := Config.top_here here
    by_cases same : b = a
    · subst same
      obtain ⟨pushed,kept⟩ := own thread f outcome x frames top rfl subject step
      apply (holds made).set here <;> rw [World.set_asyncs_self]
      · exact pushed
      · exact kept
    · apply (holds made).set here <;> rw [World.set_asyncs_of_ne (Ne.symm same)]
      · exact other thread f outcome b x frames top rfl same subject step
      · exact fun g _ old => old
  | @call thread role pc last rest b call' x frames here below step =>
    have running := (holds made) _ (mem_top here)
    by_cases same : b = a
    · subst same
      obtain ⟨pushed,kept⟩ := call thread call' x frames rfl step
      apply (holds made).set here <;> rw [World.set_asyncs_self]
      · intro g member
        rcases List.mem_append.mp member with lib | own
        · exact pushed g lib
        · rw [List.mem_singleton.mp own]
          exact each.after _ _ _ _ _ _ (each.resume _ role pc last _ _ (kept _ (mem_top here) running))
      · exact kept
    · apply (holds made).set here <;> rw [World.set_asyncs_of_ne (Ne.symm same)]
      · intro g member
        rcases List.mem_append.mp member with lib | own
        · apply each.owner
          rw [request_owner step g lib]
          exact fun eq => same (Option.some.inj eq)
        · rw [List.mem_singleton.mp own]
          exact each.after _ _ _ _ _ _ (each.resume _ role pc last _ _ running)
      · exact fun g _ old => old
  | new here kind below =>
    apply each.make known holds here construct_owner _ made
    rintro rfl
    exact each.new _ _ _
  | @unmade thread role pc last rest timed parent here below =>
    change Config.Each ⟨_,c.threads.set _ ([] ++ [Frame.user role (pc + 1) none] ++ rest)⟩ P a
    apply each.make known holds here (fun g member => absurd member List.not_mem_nil) _ made
    exact fun _ g member => absurd member List.not_mem_nil
  | @refused thread role pc last rest _ _ here =>
    apply (holds made).set here
    · intro g own
      rw [List.mem_singleton.mp own]
      exact each.resume _ role pc last _ _ (holds made _ (mem_top here))
    · exact fun g _ old => old
  | waitNew here below below' =>
    apply each.make known holds here construct_owner _ made
    rintro rfl
    exact each.waitNew _ _
  | @store thread b phase phase' e handed pc last rest here below =>
    have running := each.resume _ _ pc last (pc + 1) last (holds made _ (mem_top here))
    by_cases same : b = a
    · subst same
      apply (holds made).set here <;> rw [World.set_asyncs_self]
      · intro g own
        rw [List.mem_singleton.mp own]
        exact each.store _ _ _ running
      · exact fun g _ old => each.store _ _ g old
    · apply (holds made).set here <;> rw [World.set_asyncs_of_ne (Ne.symm same)]
      · intro g own
        rw [List.mem_singleton.mp own]
        exact running
      · exact fun g _ old => old
  | @finish thread role pc last rest err here =>
    apply (holds made).set here
    · exact each.finish _ err role (each.resume _ _ _ _ _ _ (holds made _ (mem_top here)))
    · exact fun g _ old => old
  | spawn =>
    intro g member
    rcases mem_spawn member with new | old
    · rw [List.mem_singleton.mp new]
      exact each.owner _ _ (by simp [Frame.owner,Frame.subject])
    · exact holds made g old
  | @arise b cause x frames below step =>
    intro g member
    by_cases same : b = a
    · subst same
      obtain ⟨pushed,kept⟩ := each.arise _ _ _ cause step
      change P ((c.world.set b x).asyncs b) g
      rw [World.set_asyncs_self]
      rcases mem_spawn member with new | old
      · exact pushed g new
      · exact kept g (holds made g old)
    · change P ((c.world.set b x).asyncs a) g
      rw [World.set_asyncs_of_ne (Ne.symm same)]
      rcases mem_spawn member with new | old
      · apply each.owner
        rw [arise_owner step g new]
        exact fun eq => same (Option.some.inj eq)
      · exact holds made g old

structure Interior (P : Object → Frame → Prop) (a : Id) : Prop where
  point : ∀ x f, ¬ (f.owner = some a ∧ f.interior = true) → P x f
  arise : ∀ x x' frames cause, Async.arise a x cause = some (x',frames) → ∀ g, P x g → P x' g
  store : ∀ x phase g, P x g → P {x with nextPhase := phase} g

theorem Interior.each (inner : Interior P a) : Each P a where
  owner := fun x g apart => inner.point x g (fun about => apart about.1)
  resume := fun x role pc last pc' last' _ => inner.point x _ (fun about => by cases about.2)
  after := fun x role b call pc last _ => inner.point x _ (fun about => by cases about.2)
  store := inner.store
  finish := by
    intro x err role _ g member
    apply inner.point
    intro about
    cases finish_mem member <;> cases about.2
  arise := by
    intro x x' frames cause step
    refine ⟨?_,inner.arise x x' frames cause step⟩
    intro g member
    apply inner.point
    replace step := arise_arises step
    cases step
    all_goals simp_all [Frame.interior]
  new := by
    intro kind timed parent g member
    apply inner.point
    rcases construct_mem member with ⟨p,-,rfl⟩ | rfl | ⟨-,rfl⟩ <;> exact fun about => by cases about.2
  waitNew := by
    intro parent child g member
    apply inner.point
    rcases construct_mem member with ⟨p,-,rfl⟩ | rfl | ⟨-,rfl⟩ <;> exact fun about => by cases about.2

theorem Interior.effect (inner : Interior P a) {c c' : Config} {event : Event} (known : Known c)
    (effect : Effect c event c')
    (own : ∀ thread f outcome x frames, c.top thread = some f → event = .run thread outcome →
      f.subject = some a → act thread (c.world.asyncs a) f outcome = some (x,frames) →
      (∀ g ∈ frames, P x g) ∧ ∀ g ∈ c.threads.flatten, P (c.world.asyncs a) g → P x g)
    (call : ∀ thread call x frames, event = .run thread (.acts (.call a call)) →
      request a (c.world.asyncs a) call = some (x,frames) → ∀ g, P (c.world.asyncs a) g → P x g)
    (holds : a < c.world.next → c.Each P a) (made : a < c'.world.next) : c'.Each P a := by
  apply inner.each.effect known effect own _ _ holds made
  · intro thread f outcome b x frames top _ ne subject step g member
    apply inner.point
    intro about
    rcases act_foreign ne subject step g member about.1 with ⟨e,-,-,rfl⟩ | ⟨-,rfl⟩ <;> cases about.2
  · intro thread call' x frames event step
    refine ⟨?_,fun g _ => call thread call' x frames event step g⟩
    intro g member
    apply inner.point
    cases call' <;>
      simp only [request,Option.ite_none_right_eq_some,Option.some.injEq,Prod.mk.injEq] at step <;>
      first | obtain ⟨-,rfl⟩ := step | obtain ⟨-,-,rfl⟩ := step
    all_goals simp_all [Frame.interior]

/-! ## What holds of an async by itself -/

/-- A property of an async that is made survives a step when the calls on it keep it. -/
theorem object_persists {Q : Object → Prop} {c c' : Config} {event : Event} (effect : Effect c event c')
    (own : ∀ thread f outcome x frames, c.top thread = some f → event = .run thread outcome →
      f.subject = some a → act thread (c.world.asyncs a) f outcome = some (x,frames) →
      Q (c.world.asyncs a) → Q x)
    (call : ∀ x x' call frames, request a x call = some (x',frames) → Q x → Q x')
    (arise : ∀ x x' cause frames, Async.arise a x cause = some (x',frames) → Q x → Q x')
    (store : ∀ x phase, Q x → Q {x with nextPhase := phase}) (made : a < c.world.next)
    (holds : Q (c.world.asyncs a)) : a < c'.world.next ∧ Q (c'.world.asyncs a) := by
  have set {b : Id} {x : Object} (value : b = a → Q (c.world.asyncs a) → Q x) :
      Q ((c.world.set b x).asyncs a) := by
    by_cases same : b = a
    · subst same
      rw [World.set_asyncs_self]
      exact value rfl holds
    · rw [World.set_asyncs_of_ne (Ne.symm same)]
      exact holds
  have make (x : Object) : Q ((c.world.make x).asyncs a) := by
    rw [World.make_asyncs_of_lt made]
    exact holds
  cases effect with
  | @library thread f rest outcome b x frames here subject below step =>
    have top := Config.top_here here
    refine ⟨made,set ?_⟩
    rintro rfl
    exact own thread f outcome x frames top rfl subject step
  | call here below step =>
    refine ⟨made,set ?_⟩
    rintro rfl
    exact call _ _ _ _ step
  | new here kind below => exact ⟨Nat.lt_succ_of_lt made,make _⟩
  | unmade here below => exact ⟨Nat.lt_succ_of_lt made,make _⟩
  | waitNew here below below' => exact ⟨Nat.lt_succ_of_lt made,make _⟩
  | store here below =>
    refine ⟨made,set ?_⟩
    rintro rfl
    exact store _ _
  | refused here | finish here | spawn => exact ⟨made,holds⟩
  | arise below step =>
    refine ⟨made,set ?_⟩
    rintro rfl
    exact arise _ _ _ _ step

/-- A property of the async survives a step when the calls on it keep it and the constructors set it up. -/
theorem object_effect {Q : Object → Prop} {c c' : Config} {event : Event} (effect : Effect c event c')
    (own : ∀ thread f outcome x frames, c.top thread = some f → event = .run thread outcome →
      f.subject = some a → act thread (c.world.asyncs a) f outcome = some (x,frames) →
      Q (c.world.asyncs a) → Q x)
    (call : ∀ x x' call frames, request a x call = some (x',frames) → Q x → Q x')
    (arise : ∀ x x' cause frames, Async.arise a x cause = some (x',frames) → Q x → Q x')
    (store : ∀ x phase, Q x → Q {x with nextPhase := phase})
    (new : ∀ kind timed parent, kind ≠ .wait →
      Q (fresh kind timed parent none))
    (unmade : ∀ parent, Q (Async.unmade parent))
    (waitNew : ∀ parent child, Q (freshWait parent child))
    (holds : a < c.world.next → Q (c.world.asyncs a)) (made : a < c'.world.next) : Q (c'.world.asyncs a) := by
  by_cases old : a < c.world.next
  · exact (object_persists effect own call arise store old (holds old)).2
  · have make {x : Object} (made : a < c.world.next + 1) (value : Q x) : Q ((c.world.make x).asyncs a) := by
      rcases Nat.lt_or_eq_of_le (Nat.le_of_lt_succ made) with lt | rfl
      · exact absurd lt old
      · rw [World.make_asyncs_self]
        exact value
    cases effect with
    | new here kind below => exact make made (new _ _ _ kind)
    | unmade here below => exact make made (unmade _)
    | waitNew here below below' => exact make made (waitNew _ _)
    | library _ _ _ _ | call _ _ _ | store _ _ | refused _ | finish _ | spawn | arise _ _ => exact absurd made old

/-- The parent of an async is the one it was made with. -/
theorem Effect.parent_kept {c c' : Config} {event : Event} (effect : Effect c event c') (made : a < c.world.next) :
    (c'.world.asyncs a).parent = (c.world.asyncs a).parent := by
  refine (object_persists (Q := fun x => x.parent = (c.world.asyncs a).parent) effect ?_ ?_ ?_ ?_ made rfl).2
  · exact fun thread f outcome x frames _ _ _ step _ => (act_fixed step).1
  · exact fun x x' call frames step same => (request_mentions step).2.1.trans same
  · exact fun x x' cause frames step same => (arise_mentions step).2.1.trans same
  · exact fun x phase same => same

end Xrossfire.Async

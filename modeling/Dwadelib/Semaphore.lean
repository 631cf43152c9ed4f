import Dwadelib.Threads

namespace Dwadelib.Semaphore

/-! # A semaphore between two threads

In `semaphore.c` one thread waits for the semaphore three times and another one posts it eight times. Each of them tells
what it does, and when both have ended the value that is left is told. The numbers are parameters here.
-/

inductive Line where
  | waiting
  | running (thread : Nat)
  | waited (i : Nat)
  | post
  | sval (value : Nat)
  deriving DecidableEq, Repr

inductive Action where
  | print (line : Line)
  | semWait
  | semPost
  | join (thread : Nat)
  | semGetvalue
  deriving DecidableEq, Repr

structure Shared where
  value : Nat
  printed : List Line
  deriving DecidableEq, Repr

def semValueMax : Nat := 2 ^ 31 - 1

/-- The values of `i` in a loop that counts down. -/
def countdown (count : Nat) : List Nat := (List.range count).reverse.map fun i => i + 1

def threadRunSem1 (waits : Nat) : List Action :=
  .print (.running 1) :: (countdown waits).flatMap fun i => [.semWait, .print (.waited i)]

def threadRunSem11 (posts : Nat) : List Action :=
  .print (.running 2) :: (countdown posts).flatMap fun _ => [.print .post, .semPost]

/-- `m_create_thread_sem` behind `pthread_create`. -/
def mCreateThreadSem : List Action := [.print .waiting, .join 1, .join 2, .semGetvalue]

/-- A post fails where the value would get too large; what it returns is not looked at. -/
def perform (threads : Threads Shared Action) (_ : Nat) : Action → Option Shared
  | .print line => some { threads.shared with printed := threads.shared.printed ++ [line] }
  | .semWait =>
      if 0 < threads.shared.value then some { threads.shared with value := threads.shared.value - 1 } else none
  | .semPost =>
      some { threads.shared with
        value := if threads.shared.value < semValueMax then threads.shared.value + 1 else threads.shared.value }
  | .join other => if threads.programs[other]? = some [] then some threads.shared else none
  | .semGetvalue =>
      some { threads.shared with printed := threads.shared.printed ++ [.sval threads.shared.value] }

/-- The threads after `sem_init(&g_sem, 0, 0)`. -/
def start (waits posts : Nat) : Threads Shared Action where
  shared := { value := 0, printed := [] }
  programs := [mCreateThreadSem, threadRunSem1 waits, threadRunSem11 posts]

variable {waits posts : Nat} {main waiter poster rest : List Action} {shared : Shared} {action : Action}
  {threads next final : Threads Shared Action} {thread : Nat} {schedule : List Nat}

def isWaited : Line → Bool
  | .waited _ => true
  | _ => false

def tellsWaited : Action → Bool
  | .print line => isWaited line
  | _ => false

/-- What is done and what is left come to the numbers of waits and posts. -/
structure Balanced (waits posts : Nat) (shared : Shared) (main waiter poster : List Action) : Prop where
  ofMain : main <:+ mCreateThreadSem
  ofWaiter : waiter <:+ threadRunSem1 waits
  ofPoster : poster <:+ threadRunSem11 posts
  value : shared.value + poster.count .semPost + waits = posts + waiter.count .semWait
  waited : shared.printed.countP isWaited + waiter.countP tellsWaited = waits
  posted : shared.printed.count .post + poster.count (.print .post) = posts
  joined : main.length < 3 → waiter = []
  ended : main.length < 2 → poster = []
  told : main = [] → shared.printed.getLast? = some (.sval shared.value)

theorem mem_waiter (member : action ∈ threadRunSem1 waits) :
    action = .print (.running 1) ∨ action = .semWait ∨ ∃ i, action = .print (.waited i) := by
  rcases List.mem_cons.mp member with rfl | later
  · exact .inl rfl
  · obtain ⟨i, -, pair⟩ := List.mem_flatMap.mp later
    rcases List.mem_pair.mp pair with rfl | rfl
    · exact .inr (.inl rfl)
    · exact .inr (.inr ⟨i, rfl⟩)

theorem mem_poster (member : action ∈ threadRunSem11 posts) :
    action = .print (.running 2) ∨ action = .print .post ∨ action = .semPost := by
  rcases List.mem_cons.mp member with rfl | later
  · exact .inl rfl
  · obtain ⟨_, -, pair⟩ := List.mem_flatMap.mp later
    rcases List.mem_pair.mp pair with rfl | rfl
    · exact .inr (.inl rfl)
    · exact .inr (.inr rfl)

theorem main_cases (suffix : main <:+ mCreateThreadSem) :
    main = mCreateThreadSem ∨ main = [.join 1, .join 2, .semGetvalue] ∨ main = [.join 2, .semGetvalue] ∨
      main = [.semGetvalue] ∨ main = [] := by
  simpa [mCreateThreadSem, List.suffix_cons_iff] using suffix

section Pairs

variable {ι : Type} {first second : ι → Action} {p q : Action → Bool}

theorem countP_pairs {pair : ι → List Action} (one : ∀ i, (pair i).countP p = 1) (l : List ι) :
    (l.flatMap pair).countP p = l.length := by
  induction l with
  | nil => rfl
  | cons i l ih => rw [List.flatMap_cons, List.countP_append, one, ih, List.length_cons, Nat.add_comm]

/-- Where a loop does one thing and then another, at its end there are not more of the first. -/
theorem countP_le_of_suffix (firsts : ∀ i, p (first i) = true ∧ q (first i) = false)
    (seconds : ∀ i, p (second i) = false ∧ q (second i) = true) {l : List ι}
    (suffix : rest <:+ l.flatMap fun i => [first i, second i]) : rest.countP p ≤ rest.countP q := by
  induction l generalizing rest with
  | nil =>
      rw [List.suffix_nil.mp suffix]
      exact Nat.le_refl _
  | cons i l ih =>
      have whole := ih (List.suffix_refl _)
      rw [List.flatMap_cons, List.cons_append, List.cons_append, List.nil_append] at suffix
      rcases List.suffix_cons_iff.mp suffix with rfl | suffix
      · simp only [List.countP_cons, firsts i, seconds i, if_true, Bool.false_eq_true, if_false]
        omega
      · rcases List.suffix_cons_iff.mp suffix with rfl | suffix
        · simp only [List.countP_cons, seconds i, if_true, Bool.false_eq_true, if_false]
          omega
        · exact ih suffix

end Pairs

theorem length_countdown (count : Nat) : (countdown count).length = count := by
  rw [countdown, List.length_map, List.length_reverse, List.length_range]

theorem count_semWait (waits : Nat) : (threadRunSem1 waits).count .semWait = waits := by
  rw [threadRunSem1, List.count_cons_of_ne (by decide), List.count, countP_pairs (fun _ => rfl), length_countdown]

theorem count_semPost (posts : Nat) : (threadRunSem11 posts).count .semPost = posts := by
  rw [threadRunSem11, List.count_cons_of_ne (by decide), List.count, countP_pairs (fun _ => rfl), length_countdown]

theorem count_tellsWaited (waits : Nat) : (threadRunSem1 waits).countP tellsWaited = waits := by
  rw [threadRunSem1, List.countP_cons_of_neg (by decide), countP_pairs (fun _ => rfl), length_countdown]

theorem count_printPost (posts : Nat) : (threadRunSem11 posts).count (.print .post) = posts := by
  rw [threadRunSem11, List.count_cons_of_ne (by decide), List.count, countP_pairs (fun _ => rfl), length_countdown]

theorem balanced_start (waits posts : Nat) :
    Balanced waits posts { value := 0, printed := [] } mCreateThreadSem (threadRunSem1 waits) (threadRunSem11 posts) where
  ofMain := List.suffix_refl _
  ofWaiter := List.suffix_refl _
  ofPoster := List.suffix_refl _
  value := by rw [count_semWait, count_semPost, Nat.zero_add]
  waited := by rw [count_tellsWaited, List.countP_nil, Nat.zero_add]
  posted := by rw [count_printPost, List.count_nil, Nat.zero_add]
  joined := fun short => absurd short (by decide)
  ended := fun short => absurd short (by decide)
  told := fun empty => by contradiction

/-- A thread that has waited does so behind a post. -/
theorem Balanced.waited_le_posted (balanced : Balanced waits posts shared main waiter poster) :
    shared.printed.countP isWaited ≤ shared.printed.count .post := by
  obtain ⟨-, ofWaiter, ofPoster, value, waited, posted, -, -, -⟩ := balanced
  have waiting : waiter.count .semWait ≤ waiter.countP tellsWaited := by
    rcases List.suffix_cons_iff.mp ofWaiter with rfl | suffix
    · exact Nat.le_of_eq ((count_semWait waits).trans (count_tellsWaited waits).symm)
    · exact countP_le_of_suffix (fun _ => ⟨rfl, rfl⟩) (fun _ => ⟨rfl, rfl⟩) suffix
  have posting : poster.count (.print .post) ≤ poster.count .semPost := by
    rcases List.suffix_cons_iff.mp ofPoster with rfl | suffix
    · exact Nat.le_of_eq ((count_printPost posts).trans (count_semPost posts).symm)
    · exact countP_le_of_suffix (fun _ => ⟨rfl, rfl⟩) (fun _ => ⟨rfl, rfl⟩) suffix
  omega

section Steps

variable {after : Shared}

theorem Balanced.main_step (balanced : Balanced waits posts shared (action :: rest) waiter poster)
    (performed : perform { shared, programs := [action :: rest, waiter, poster] } 0 action = some after) :
    Balanced waits posts after rest waiter poster := by
  obtain ⟨ofMain, ofWaiter, ofPoster, value, waited, posted, joined, ended, told⟩ := balanced
  have later : rest <:+ mCreateThreadSem := (List.suffix_cons action rest).trans ofMain
  rcases main_cases ofMain with whole | whole | whole | whole | whole
  · cases whole
    cases performed
    refine ⟨later, ofWaiter, ofPoster, value, ?_, ?_, fun short => absurd short (by decide),
      fun short => absurd short (by decide), fun empty => by contradiction⟩
    · rw [List.countP_append]
      exact waited
    · rw [List.count_append]
      exact posted
  · cases whole
    simp only [perform, List.getElem?_cons_succ, List.getElem?_cons_zero, Option.some.injEq,
      Option.ite_none_right_eq_some] at performed
    obtain ⟨empty, rfl⟩ := performed
    exact ⟨later, ofWaiter, ofPoster, value, waited, posted, fun _ => empty, fun short => absurd short (by decide),
      fun empty => by contradiction⟩
  · cases whole
    simp only [perform, List.getElem?_cons_succ, List.getElem?_cons_zero, Option.some.injEq,
      Option.ite_none_right_eq_some] at performed
    obtain ⟨empty, rfl⟩ := performed
    exact ⟨later, ofWaiter, ofPoster, value, waited, posted, fun _ => joined (by decide), fun _ => empty,
      fun empty => by contradiction⟩
  · cases whole
    cases performed
    refine ⟨later, ofWaiter, ofPoster, value, ?_, ?_, fun _ => joined (by decide), fun _ => ended (by decide),
      fun _ => List.getLast?_concat ..⟩
    · rw [List.countP_append]
      exact waited
    · rw [List.count_append]
      exact posted
  · contradiction

theorem Balanced.waiter_step (balanced : Balanced waits posts shared main (action :: rest) poster)
    (performed : perform { shared, programs := [main, action :: rest, poster] } 1 action = some after) :
    Balanced waits posts after main rest poster := by
  obtain ⟨ofMain, ofWaiter, ofPoster, value, waited, posted, joined, ended, told⟩ := balanced
  have later : rest <:+ threadRunSem1 waits := (List.suffix_cons action rest).trans ofWaiter
  have early : ¬ main.length < 3 := fun short => absurd (joined short) (List.cons_ne_nil _ _)
  have kept : ∀ {shared' : Shared}, main = [] → shared'.printed.getLast? = some (.sval shared'.value) := by
    rintro _ rfl
    exact absurd (by decide) early
  rcases mem_waiter (ofWaiter.subset List.mem_cons_self) with rfl | rfl | ⟨i, rfl⟩
  · cases performed
    refine ⟨ofMain, later, ofPoster, ?_, ?_, ?_, fun short => absurd short early, ended, kept⟩
    · simpa using value
    · simpa [isWaited, tellsWaited] using waited
    · simpa using posted
  · simp only [perform, Option.ite_none_right_eq_some, Option.some.injEq] at performed
    obtain ⟨positive, rfl⟩ := performed
    refine ⟨ofMain, later, ofPoster, ?_, ?_, posted, fun short => absurd short early, ended, kept⟩
    · rw [List.count_cons_self] at value
      show shared.value - 1 + _ + _ = _
      omega
    · simpa [tellsWaited] using waited
  · cases performed
    refine ⟨ofMain, later, ofPoster, ?_, ?_, ?_, fun short => absurd short early, ended, kept⟩
    · simpa using value
    · simp only [List.countP_cons, tellsWaited, isWaited, if_true] at waited
      simp only [List.countP_append, List.countP_singleton, isWaited, if_true]
      omega
    · simpa using posted

theorem Balanced.poster_step (fits : posts ≤ semValueMax)
    (balanced : Balanced waits posts shared main waiter (action :: rest))
    (performed : perform { shared, programs := [main, waiter, action :: rest] } 2 action = some after) :
    Balanced waits posts after main waiter rest := by
  obtain ⟨ofMain, ofWaiter, ofPoster, value, waited, posted, joined, ended, told⟩ := balanced
  have later : rest <:+ threadRunSem11 posts := (List.suffix_cons action rest).trans ofPoster
  have early : ¬ main.length < 2 := fun short => absurd (ended short) (List.cons_ne_nil _ _)
  have kept : ∀ {shared' : Shared}, main = [] → shared'.printed.getLast? = some (.sval shared'.value) := by
    rintro _ rfl
    exact absurd (by decide) early
  rcases mem_poster (ofPoster.subset List.mem_cons_self) with rfl | rfl | rfl
  · cases performed
    refine ⟨ofMain, ofWaiter, later, ?_, ?_, ?_, joined, fun short => absurd short early, kept⟩
    · simpa using value
    · simpa [isWaited] using waited
    · simpa using posted
  · cases performed
    refine ⟨ofMain, ofWaiter, later, ?_, ?_, ?_, joined, fun short => absurd short early, kept⟩
    · simpa using value
    · simpa [isWaited] using waited
    · simp only [List.count_cons_self] at posted
      simp only [List.count_append, List.count_singleton_self]
      omega
  · cases performed
    have room : shared.value < semValueMax := by
      have most : waiter.count .semWait ≤ waits := count_semWait waits ▸ ofWaiter.sublist.count_le _
      rw [List.count_cons_self] at value
      omega
    refine ⟨ofMain, ofWaiter, later, ?_, waited, ?_, joined, fun short => absurd short early, kept⟩
    · rw [List.count_cons_self] at value
      show (if shared.value < semValueMax then shared.value + 1 else shared.value) + _ + _ = _
      rw [if_pos room]
      omega
    · simpa using posted

end Steps

/-- The threads of the demonstration on their way. -/
def Running (waits posts : Nat) (threads : Threads Shared Action) : Prop :=
  ∃ main waiter poster, threads.programs = [main, waiter, poster] ∧
    Balanced waits posts threads.shared main waiter poster

theorem Running.step (fits : posts ≤ semValueMax) (running : Running waits posts threads)
    (taken : Threads.step perform threads thread = some next) : Running waits posts next := by
  obtain ⟨main, waiter, poster, programs, balanced⟩ := running
  obtain ⟨action, rest, after, found, performed, rfl⟩ := Threads.step_eq_some.mp taken
  obtain ⟨shared, _⟩ := threads
  obtain rfl : _ = _ := programs
  match thread with
  | 0 =>
      cases found
      exact ⟨rest, waiter, poster, rfl, balanced.main_step performed⟩
  | 1 =>
      cases found
      exact ⟨main, rest, poster, rfl, balanced.waiter_step performed⟩
  | 2 =>
      cases found
      exact ⟨main, waiter, rest, rfl, balanced.poster_step fits performed⟩
  | thread + 3 => contradiction

theorem running_run (fits : posts ≤ semValueMax)
    (reached : Run.run (Threads.step perform) (start waits posts) schedule = some final) : Running waits posts final :=
  Run.invariant_of_run (fun _ _ _ running taken => running.step fits taken)
    ⟨_, _, _, rfl, balanced_start waits posts⟩ reached

/-- Where nothing can move, everything is posted. -/
theorem poster_done (balanced : Balanced waits posts shared main waiter poster)
    (stuck : Threads.Stuck perform { shared, programs := [main, waiter, poster] }) : poster = [] := by
  cases poster with
  | nil => rfl
  | cons action rest =>
      have blocked : perform { shared, programs := [main, waiter, action :: rest] } 2 action = none :=
        Threads.step_none (stuck 2) rfl
      rcases mem_poster (balanced.ofPoster.subset List.mem_cons_self) with rfl | rfl | rfl
      · contradiction
      · contradiction
      · contradiction

/-- The thread that waits has ended, or the value is zero and it waits for ever. -/
theorem waiter_done (balanced : Balanced waits posts shared main waiter poster)
    (stuck : Threads.Stuck perform { shared, programs := [main, waiter, poster] }) :
    waiter = [] ∨ shared.value = 0 ∧ 0 < waiter.count .semWait := by
  cases waiter with
  | nil => exact .inl rfl
  | cons action rest =>
      have blocked : perform { shared, programs := [main, action :: rest, poster] } 1 action = none :=
        Threads.step_none (stuck 1) rfl
      rcases mem_waiter (balanced.ofWaiter.subset List.mem_cons_self) with rfl | rfl | ⟨i, rfl⟩
      · contradiction
      · simp only [perform, ite_eq_right_iff, reduceCtorEq, imp_false, Nat.not_lt, Nat.le_zero] at blocked
        refine .inr ⟨blocked, ?_⟩
        rw [List.count_cons_self]
        exact Nat.succ_pos _
      · contradiction

/-- The first thread of the program goes on to its end when the other two have ended. -/
theorem main_done (balanced : Balanced waits posts shared main [] [])
    (stuck : Threads.Stuck perform { shared, programs := [main, [], []] }) : main = [] := by
  have blocked : ∀ action rest, main = action :: rest →
      perform { shared, programs := [main, [], []] } 0 action = none := by
    rintro action rest rfl
    exact Threads.step_none (stuck 0) rfl
  rcases main_cases balanced.ofMain with rfl | rfl | rfl | rfl | rfl
  · exact absurd (blocked _ _ rfl) (by simp [perform])
  · exact absurd (blocked _ _ rfl) (by simp [perform])
  · exact absurd (blocked _ _ rfl) (by simp [perform])
  · exact absurd (blocked _ _ rfl) (by simp [perform])
  · rfl

/-- How `m_create_thread_sem` should end: all threads have, and the last thing told is the value that is left. -/
def Told (value : Nat) (threads : Threads Shared Action) : Prop :=
  threads.Done ∧ threads.shared.printed.getLast? = some (.sval value)

theorem told_of_stuck (enough : waits ≤ posts) (running : Running waits posts threads)
    (stuck : Threads.Stuck perform threads) : Told (posts - waits) threads := by
  obtain ⟨main, waiter, poster, programs, balanced⟩ := running
  obtain ⟨shared, _⟩ := threads
  obtain rfl : _ = _ := programs
  obtain rfl := poster_done balanced stuck
  have value : shared.value + 0 + waits = posts + waiter.count .semWait := balanced.value
  obtain rfl : waiter = [] := by
    rcases waiter_done balanced stuck with ended | waits_forever
    · exact ended
    · obtain ⟨zero, some⟩ : shared.value = 0 ∧ 0 < waiter.count .semWait := waits_forever
      omega
  obtain rfl := main_done balanced stuck
  have left : shared.value = posts - waits := by
    rw [List.count_nil] at value
    omega
  refine ⟨?_, left ▸ balanced.told rfl⟩
  simp [Threads.Done]

/-- With too few posts a thread waits for ever, whatever the schedule is. -/
theorem not_done_of_few (few : posts < waits) (running : Running waits posts threads) : ¬ threads.Done := by
  intro done
  obtain ⟨main, waiter, poster, programs, balanced⟩ := running
  have empty : ∀ program ∈ [main, waiter, poster], program = [] := programs ▸ done
  simp only [List.forall_mem_cons] at empty
  obtain ⟨-, rfl, rfl, -⟩ := empty
  have value := balanced.value
  simp only [List.count_nil] at value
  omega

theorem left_start (waits posts : Nat) : (start waits posts).left = 2 * waits + 2 * posts + 6 := by
  have twice : ∀ {count : Nat} {actions : Nat → List Action}, (∀ i, (actions i).length = 2) →
      ((countdown count).flatMap actions).length = 2 * count := by
    intro count actions each
    rw [List.length_flatMap, List.map_congr_left fun i _ => each i, List.map_const', List.sum_replicate_nat, countdown,
      List.length_map, List.length_reverse, List.length_range, Nat.mul_comm]
  have waiter : (threadRunSem1 waits).length = 2 * waits + 1 := congrArg Nat.succ (twice fun _ => rfl)
  have poster : (threadRunSem11 posts).length = 2 * posts + 1 := congrArg Nat.succ (twice fun _ => rfl)
  have main : mCreateThreadSem.length = 4 := rfl
  simp only [Threads.left, start, List.map_cons, List.map_nil, List.sum_cons, List.sum_nil, waiter, poster, main]
  omega

/-- No schedule goes on for ever, and in none of them more waits have returned than posts were told. Every schedule
that goes on as long as it can ends with all threads ended and the difference told exactly if there are enough posts.
The threads of the source come to 5. -/
theorem schedules_end (fits : posts ≤ semValueMax) :
    (∀ schedule final, Run.run (Threads.step perform) (start waits posts) schedule = some final →
        schedule.length ≤ 2 * waits + 2 * posts + 6 ∧
          final.shared.printed.countP isWaited ≤ final.shared.printed.count .post) ∧
      (Threads.Ends perform (start waits posts) (Told (posts - waits)) ↔ waits ≤ posts) := by
  refine ⟨fun schedule final reached => ⟨?_, ?_⟩, fun ends => ?_, fun enough schedule final reached stuck => ?_⟩
  · have steps := Threads.left_run reached
    rw [left_start] at steps
    omega
  · obtain ⟨_, _, _, -, balanced⟩ := running_run fits reached
    exact balanced.waited_le_posted
  · by_contra few
    obtain ⟨schedule, final, reached, stuck⟩ := Threads.exists_stuck perform (start waits posts)
    exact not_done_of_few (Nat.lt_of_not_le few) (running_run fits reached) (ends schedule final reached stuck).1
  · exact told_of_stuck enough (running_run fits reached) stuck

theorem schedules_end_five : Threads.Ends perform (start 3 8) (Told 5) :=
  (schedules_end (by decide)).2.mpr (by decide)

end Dwadelib.Semaphore

import Mathlib.Data.ENat.Lattice
import PackageAudit.Baseline.Registry

/-!
# Proofs.Network.Schedule — which attempts a request takes, and how long it waits for them

A request counts its attempts. The count says which delay comes next and whether any is left, so it
must neither leave the list of delays nor stop short of its end:

* `Attempt.IsTransient` — what another attempt may come to something else after;
* `Request.perform` — attempts by their number, with everything that is done on the way;
* `Request.firstSettled` — the first attempt that settles a request, `lastAttempt` — the last one;
* `Request.Ends` — what is known of the last attempt, `Ends.lt_iff` — when another one follows;
* `Request.perform_eq` — the attempts and the delays up to there, and nothing else;
* `Request.retry_schedule` — the schedule, and what a missing manifest rests on.
-/

namespace PackageAudit

/-- The server failed, or it was not reached in time. -/
inductive Attempt.IsTransient : Attempt → Prop where
  | serverError {status : Nat} {body : Except String Bytes} (h : 500 ≤ status)
    (h' : status < 600) : IsTransient (.answer status body)
  | timeout : IsTransient .timeout
  | noConnection {reason : String} : IsTransient (.noConnection reason)

namespace Attempt

theorem isRetryable_iff {a : Attempt} : a.isRetryable = true ↔ a.IsTransient := by
  constructor
  · intro h
    cases a with
    | answer status body =>
      have hstatus : 500 ≤ status ∧ status < 600 := by
        simpa [isRetryable, Status.isServerError] using h
      exact .serverError hstatus.1 hstatus.2
    | timeout => exact .timeout
    | noConnection reason => exact .noConnection
    | failed reason => cases h
  · rintro (⟨h, h'⟩ | _ | _)
    · simp [isRetryable, Status.isServerError, h, h']
    · rfl
    · rfl

instance (a : Attempt) : Decidable a.IsTransient :=
  decidable_of_iff _ isRetryable_iff

end Attempt

namespace Request

variable {delays : List Nat} {send : Nat → Attempt} {number m : Nat}

/-! ## Attempts by their number -/

/-- What is done for a request. -/
inductive Act where
  | wait (delay : Nat)
  | attempt (outcome : Attempt)

namespace Act

def delay? : Act → Option Nat
  | wait delay => some delay
  | attempt _ => none

def outcome? : Act → Option Attempt
  | wait _ => none
  | attempt outcome => some outcome

end Act

/-- Everything that is done for a request, and what the last attempt comes to. -/
structure Run where
  acts : List Act
  last : Attempt

namespace Run

/-- The outcomes of the attempts. -/
def outcomes (r : Run) : List Attempt := r.acts.filterMap Act.outcome?

/-- The delays that were waited. -/
def waits (r : Run) : List Nat := r.acts.filterMap Act.delay?

end Run

/-- What is done before an attempt, unless there is no delay for it. -/
def pause? (delays : List Nat) (number : Nat) : Option (List Act) :=
  if number = 0 then some [] else delays[number - 1]?.map fun delay => [.wait delay]

theorem le_of_pause? {before : List Act} (h : pause? delays number = some before) :
    number ≤ delays.length := by
  unfold pause? at h
  split at h
  · omega
  · obtain ⟨delay, hdelay, -⟩ := Option.map_eq_some_iff.1 h
    have hlt := (List.getElem?_eq_some_iff.1 hdelay).1
    omega

/--
Wait and make an attempt, and then go on with the next one unless this one is the last. If there is
no delay where one is looked for, there is no run.
-/
def perform (delays : List Nat) (send : Nat → Attempt) (number : Nat) : Option Run :=
  match _hpause : pause? delays number with
  | none => none
  | some before =>
    if (send number).isRetryable ∧ number + 1 ≠ delays.length + 1 then
      (perform delays send (number + 1)).map fun run =>
        ⟨before ++ .attempt (send number) :: run.acts, run.last⟩
    else some ⟨before ++ [.attempt (send number)], send number⟩
termination_by delays.length + 1 - number
decreasing_by
  have hle := le_of_pause? _hpause
  omega

/-! ## The last attempt -/

/-- The number of the first attempt that settles a request, if there is one. -/
noncomputable def firstSettled (send : Nat → Attempt) : ℕ∞ :=
  sInf {k : ℕ∞ | ∃ i : Nat, k = i ∧ ¬ (send i).IsTransient}

/-- The number of the last attempt: the one that settles the request, or that has the last delay. -/
noncomputable def lastAttempt (delays : List Nat) (send : Nat → Attempt) : Nat :=
  (min (firstSettled send) delays.length).toNat

/-- An attempt is reached, and no other one comes behind it. -/
structure Ends (delays : List Nat) (send : Nat → Attempt) (m : Nat) : Prop where
  le : m ≤ delays.length
  transient : ∀ i < m, (send i).IsTransient
  settled : m = delays.length ∨ ¬ (send m).IsTransient

/-- Another attempt follows if this one is transient and there is a delay for it. -/
theorem Ends.lt_iff (h : Ends delays send m) (hle : number ≤ m) :
    number < m ↔ (send number).IsTransient ∧ number < delays.length := by
  constructor
  · exact fun hlt => ⟨h.transient number hlt, Nat.lt_of_lt_of_le hlt h.le⟩
  · rintro ⟨htransient, hdelay⟩
    refine Nat.lt_of_le_of_ne hle ?_
    rintro rfl
    rcases h.settled with hend | hsettled
    · exact Nat.ne_of_lt hdelay hend
    · exact hsettled htransient

theorem firstSettled_le {i : Nat} (h : ¬ (send i).IsTransient) : firstSettled send ≤ i :=
  sInf_le ⟨i, rfl, h⟩

theorem firstSettled_eq_coe_iff {k : Nat} :
    firstSettled send = k ↔ ¬ (send k).IsTransient ∧ ∀ i < k, (send i).IsTransient := by
  constructor
  · intro h
    have hmem : firstSettled send ∈ {k : ℕ∞ | ∃ i : Nat, k = i ∧ ¬ (send i).IsTransient} := by
      refine csInf_mem (Set.nonempty_iff_ne_empty.2 fun hempty => ?_)
      rw [firstSettled, hempty, sInf_empty] at h
      exact ENat.natCast_ne_top k h.symm
    obtain ⟨i, hi, hsettled⟩ := hmem
    obtain rfl : k = i := Nat.cast_injective (h.symm.trans hi)
    refine ⟨hsettled, fun i hlt => ?_⟩
    by_contra hearlier
    have hle := firstSettled_le hearlier
    rw [h, Nat.cast_le] at hle
    omega
  · rintro ⟨hsettled, hearlier⟩
    refine le_antisymm (firstSettled_le hsettled) (le_sInf ?_)
    rintro _ ⟨i, rfl, hi⟩
    exact Nat.cast_le.2 (Nat.le_of_not_lt fun hlt => hi (hearlier i hlt))

theorem firstSettled_eq_top_iff : firstSettled send = ⊤ ↔ ∀ i, (send i).IsTransient := by
  constructor
  · intro h i
    by_contra hsettled
    have hle := firstSettled_le hsettled
    rw [h, top_le_iff] at hle
    exact ENat.natCast_ne_top i hle
  · intro h
    refine sInf_eq_top.2 ?_
    rintro _ ⟨i, rfl, hi⟩
    exact absurd (h i) hi

theorem coe_lastAttempt (delays : List Nat) (send : Nat → Attempt) :
    (lastAttempt delays send : ℕ∞) = min (firstSettled send) delays.length :=
  ENat.natCast_toNat (ne_top_of_le_ne_top (ENat.natCast_ne_top _) (min_le_right _ _))

theorem ends_lastAttempt (delays : List Nat) (send : Nat → Attempt) :
    Ends delays send (lastAttempt delays send) := by
  have hlast := coe_lastAttempt delays send
  cases hfirst : firstSettled send with
  | top =>
    rw [hfirst, min_eq_right le_top, Nat.cast_inj] at hlast
    rw [hlast]
    exact ⟨Nat.le_refl _, fun i _ => firstSettled_eq_top_iff.1 hfirst i, .inl rfl⟩
  | coe k =>
    obtain ⟨hsettled, hearlier⟩ := firstSettled_eq_coe_iff.1 hfirst
    rw [hfirst, ← Nat.mono_cast.map_min, Nat.cast_inj] at hlast
    rw [hlast]
    refine ⟨Nat.min_le_right _ _, fun i hi => hearlier i (by omega), ?_⟩
    rcases Nat.le_total k delays.length with hle | hle
    · rw [Nat.min_eq_left hle]
      exact .inr hsettled
    · exact .inl (Nat.min_eq_right hle)

/-! ## The schedule -/

/-- A delay with its position, and the attempt after it. -/
def turn (send : Nat → Attempt) (delay : Nat × Nat) : List Act :=
  [.wait delay.1, .attempt (send (delay.2 + 1))]

/-- The first attempt, and another one after each of the first `m` delays. -/
def schedule (delays : List Nat) (send : Nat → Attempt) (m : Nat) : List Act :=
  .attempt (send 0) :: (delays.take m).zipIdx.flatMap (turn send)

theorem pause?_succ (h : number < delays.length) :
    pause? delays (number + 1) = some [.wait delays[number]] := by
  rw [pause?, if_neg (Nat.succ_ne_zero number), Nat.add_sub_cancel, List.getElem?_eq_getElem h,
    Option.map_some]

/-- From an attempt on there is one after each of the delays up to the last attempt. -/
theorem perform_eq {before : List Act} (h : Ends delays send m)
    (hpause : pause? delays number = some before) (hle : number ≤ m) :
    perform delays send number =
      some ⟨before ++ .attempt (send number) ::
        (((delays.drop number).take (m - number)).zipIdx number).flatMap (turn send), send m⟩ := by
  -- Along the attempts: the next one is not behind the last as long as this one is not the last.
  fun_induction perform delays send number generalizing before with
  | case1 number hnone =>
    rw [hnone] at hpause
    cases hpause
  | case2 number before' hbefore hagain ih =>
    obtain rfl : before' = before := Option.some_inj.1 (hbefore.symm.trans hpause)
    have hroom := le_of_pause? hbefore
    have hdelay : number < delays.length := by omega
    have hlt := (h.lt_iff hle).2 ⟨Attempt.isRetryable_iff.1 hagain.1, hdelay⟩
    have hcut : (delays.drop number).take (m - number) =
        delays[number] :: (delays.drop (number + 1)).take (m - (number + 1)) := by
      rw [List.drop_eq_getElem_cons hdelay, show m - number = m - (number + 1) + 1 by omega,
        List.take_succ_cons]
    rw [ih (pause?_succ hdelay) hlt, Option.map_some, hcut, List.zipIdx_cons, List.flatMap_cons]
    rfl
  | case3 number before' hbefore hstop =>
    obtain rfl : before' = before := Option.some_inj.1 (hbefore.symm.trans hpause)
    obtain rfl : number = m := by
      refine Nat.le_antisymm hle (Nat.le_of_not_lt fun hlt => hstop ?_)
      obtain ⟨htransient, hdelay⟩ := (h.lt_iff hle).1 hlt
      exact ⟨Attempt.isRetryable_iff.2 htransient, by omega⟩
    rw [Nat.sub_self, List.take_zero]
    rfl

/-- The delays and the attempts of a request, and that it never looks for a delay in vain. -/
theorem perform_zero (h : Ends delays send m) :
    perform delays send 0 = some ⟨schedule delays send m, send m⟩ :=
  perform_eq h rfl (Nat.zero_le m)

theorem flatMap_turn_outcomes (send : Nat → Attempt) (pairs : List (Nat × Nat)) :
    (pairs.flatMap (turn send)).filterMap Act.outcome? = pairs.map fun d => send (d.2 + 1) := by
  induction pairs with
  | nil => rfl
  | cons d pairs ih =>
    rw [List.flatMap_cons, List.filterMap_append, ih, List.map_cons]
    rfl

theorem flatMap_turn_delays (send : Nat → Attempt) (pairs : List (Nat × Nat)) :
    (pairs.flatMap (turn send)).filterMap Act.delay? = pairs.map Prod.fst := by
  induction pairs with
  | nil => rfl
  | cons d pairs ih =>
    rw [List.flatMap_cons, List.filterMap_append, ih, List.map_cons]
    rfl

/-- The attempts are the first `m + 1`, in their order. -/
theorem outcomes_schedule (hle : m ≤ delays.length) :
    (schedule delays send m).filterMap Act.outcome? = (List.range (m + 1)).map send := by
  have hbehind : (((delays.take m).zipIdx.map fun d => send (d.2 + 1))) =
      (List.range m).map fun i => send (i + 1) := by
    have hpositions := congrArg (List.map fun i => send (i + 1))
      (List.zipIdx_map_snd 0 (delays.take m))
    rw [List.map_map, List.length_take, Nat.min_eq_left hle, ← List.range_eq_range'] at hpositions
    exact hpositions
  rw [schedule, List.filterMap_cons_some (by rfl), flatMap_turn_outcomes, hbehind,
    List.range_succ_eq_map, List.map_cons, List.map_map]
  rfl

/-- The delays are the first `m`, in their order. -/
theorem delays_schedule (delays : List Nat) (send : Nat → Attempt) (m : Nat) :
    (schedule delays send m).filterMap Act.delay? = delays.take m := by
  rw [schedule, List.filterMap_cons_none (by rfl), flatMap_turn_delays, List.zipIdx_map_fst]

/-- An attempt that settles the request is the last one. -/
theorem no_attempt_behind (h : Ends delays send m) {before after : List Act} {outcome : Attempt}
    (hacts : schedule delays send m = before ++ .attempt outcome :: after)
    (hsettled : ¬ outcome.IsTransient) (later : Attempt) : .attempt later ∉ after := by
  let position := (before.filterMap Act.outcome?).length
  have houtcomes : (List.range (m + 1)).map send =
      before.filterMap Act.outcome? ++ outcome :: after.filterMap Act.outcome? := by
    rw [← outcomes_schedule h.le, hacts, List.filterMap_append, List.filterMap_cons_some (by rfl)]
  have hlength : m = position + (after.filterMap Act.outcome?).length := by
    have hlengths := congrArg List.length houtcomes
    rw [List.length_map, List.length_range, List.length_append, List.length_cons] at hlengths
    omega
  have houtcome : send position = outcome := by
    have hat := congrArg (·[position]?) houtcomes
    rw [List.getElem?_append_right (Nat.le_refl _), Nat.sub_self, List.getElem?_cons_zero,
      List.getElem?_map, List.getElem?_range (by omega)] at hat
    exact Option.some_inj.1 hat
  have hlast : ¬ position < m := fun hlt => hsettled (houtcome ▸ h.transient position hlt)
  have hnone : after.filterMap Act.outcome? = [] := List.length_eq_zero_iff.1 (by omega)
  intro hlater
  have hmem : later ∈ after.filterMap Act.outcome? :=
    List.mem_filterMap.2 ⟨Act.attempt later, hlater, rfl⟩
  rw [hnone] at hmem
  exact List.not_mem_nil hmem

/-! ## Attempts along the delays -/

/-- The same attempts and delays come from taking one delay after the other. -/
theorem retryFrom_eq (h : Ends delays send m) (hle : number ≤ m) :
    retryFrom send number (delays.drop number) =
      ⟨send m, (delays.drop number).take (m - number)⟩ := by
  generalize hrest : delays.drop number = rest
  fun_induction retryFrom send number rest with
  | case1 number =>
    have hend := List.drop_eq_nil_iff.1 hrest
    have hroom := h.le
    obtain rfl : number = m := by omega
    rw [List.take_nil]
  | case2 number delay rest attempt hagain behind ih =>
    have hdrop : delays.drop (number + 1) = rest := by
      rw [← List.drop_drop, hrest, List.drop_one, List.tail_cons]
    have hdelay : number < delays.length := by
      rw [← Nat.not_le, ← List.drop_eq_nil_iff, hrest]
      exact List.cons_ne_nil _ _
    have hlt := (h.lt_iff hle).2 ⟨Attempt.isRetryable_iff.1 hagain, hdelay⟩
    rw [show behind = _ from ih hlt hdrop, show m - number = m - (number + 1) + 1 by omega,
      List.take_succ_cons]
  | case3 number delay rest attempt hstop =>
    obtain rfl : number = m := by
      refine Nat.le_antisymm hle (Nat.le_of_not_lt fun hlt => hstop ?_)
      exact Attempt.isRetryable_iff.2 (h.transient number hlt)
    rw [Nat.sub_self, List.take_zero]

theorem retry_eq (delays : List Nat) (send : Nat → Attempt) :
    retry delays send =
      ⟨send (lastAttempt delays send), delays.take (lastAttempt delays send)⟩ :=
  retryFrom_eq (ends_lastAttempt delays send) (Nat.zero_le _)

/-- The answer to a request is that of its last attempt. -/
theorem get_eq (transport : Transport) (delays : List Nat) (url : String) :
    get transport delays url =
      (transport url (lastAttempt delays (transport url))).result url := by
  rw [get, retry_eq]

theorem result_eq_ok {a : Attempt} {url : String} {answer : Answer} :
    a.result url = .ok answer ↔ a = .answer answer.status answer.body := by
  obtain ⟨status', body'⟩ := answer
  cases a with
  | answer status body => simp [Attempt.result]
  | timeout => exact iff_of_false nofun nofun
  | noConnection reason => exact iff_of_false nofun nofun
  | failed reason => exact iff_of_false nofun nofun

end Request

/-- A manifest is missing only where there is nothing at its address. -/
theorem Registry.published_eq_none_iff {r : Registry} {get : String → Except NetworkError Answer}
    {name version : String} :
    r.published get name version = .ok none ↔ ∃ url answer,
      endpoint r.manifests [name, version] = .ok url ∧ get url = .ok answer ∧
        answer.status = Status.notFound := by
  unfold published
  constructor
  · intro h
    cases hurl : endpoint r.manifests [name, version] with
    | error e => rw [hurl] at h; cases h
    | ok url =>
      cases hget : get url with
      | error e => simp [hurl, hget, bind, Except.bind] at h
      | ok answer =>
        refine ⟨url, answer, rfl, hget, ?_⟩
        by_contra hfound
        simp only [hurl, hget, bind, Except.bind, pure, Except.pure, if_neg hfound] at h
        split at h
        · cases h
        · split at h <;> cases h
  · rintro ⟨url, answer, hurl, hget, hmissing⟩
    simp [hurl, hget, hmissing, bind, Except.bind, pure, Except.pure]

namespace Request

/--
The schedule of a request: it makes one attempt, and one more after each delay, until an attempt
settles it or no delay is left. So it never looks for a delay that is not there, no attempt follows
an answer unless the server failed, and its result is that of the last attempt, whatever this is. A
manifest is taken for missing only if this one says so.
-/
theorem retry_schedule :
    (∀ (delays : List Nat) (send : Nat → Attempt),
      let m := lastAttempt delays send
      (m : ℕ∞) = min (firstSettled send) delays.length ∧
      ∃ run, perform delays send 0 = some run ∧
        run.acts = .attempt (send 0) :: (delays.take m).zipIdx.flatMap (turn send) ∧
        run.outcomes = (List.range (m + 1)).map send ∧
        run.waits = delays.take m ∧
        run.last = send m ∧
        (∀ before status body after,
          run.acts = before ++ .attempt (.answer status body) :: after → 200 ≤ status →
            status < 500 → ∀ later, .attempt later ∉ after) ∧
        retry delays send = ⟨run.last, run.waits⟩) ∧
    (∀ transport delays url, get transport delays url =
      (transport url (lastAttempt delays (transport url))).result url) ∧
    ∀ (r : Registry) transport delays name version,
      r.published (get transport delays) name version = .ok none ↔
        ∃ url body, Registry.endpoint r.manifests [name, version] = .ok url ∧
          transport url (lastAttempt delays (transport url)) = .answer Status.notFound body := by
  refine ⟨fun delays send => ?_, get_eq, fun r transport delays name version => ?_⟩
  · have hends := ends_lastAttempt delays send
    refine ⟨coe_lastAttempt delays send, _, perform_zero hends, rfl, outcomes_schedule hends.le,
      delays_schedule .., rfl, fun before status body after hacts _ hlt => ?_, ?_⟩
    · refine no_attempt_behind hends hacts ?_
      rintro (⟨hge, -⟩ | _ | _)
      omega
    · rw [Run.waits, delays_schedule, retry_eq]
  · simp only [Registry.published_eq_none_iff, get_eq, result_eq_ok]
    constructor
    · rintro ⟨url, ⟨status, body⟩, hurl, hlast, rfl⟩
      exact ⟨url, body, hurl, hlast⟩
    · rintro ⟨url, body, hurl, hlast⟩
      exact ⟨url, ⟨Status.notFound, body⟩, hurl, hlast, rfl⟩

/-- A server that fails at first, is not reached then, and has nothing after all. -/
def missingAtLast : Nat → Attempt
  | 0 => .answer 503 (.ok [])
  | 1 => .timeout
  | _ => .answer 404 (.ok [])

/-- Its first two attempts are transient, so one of three delays is left over. -/
theorem retry_schedule_missing :
    (∃ run, perform [10, 20, 30] missingAtLast 0 = some run ∧ run.waits = [10, 20] ∧
      run.last = .answer 404 (.ok [])) ∧
    Registry.published ⟨⟨"https".toList, some ⟨none, "packages.test".toList, none⟩,
        .segments [[]], none, none⟩, none, none⟩ (get (fun _ => missingAtLast) [10, 20, 30])
        "com.test" "1.0.0" = .ok none := by
  have hfirst : firstSettled missingAtLast = (2 : Nat) :=
    firstSettled_eq_coe_iff.2 ⟨by decide, by decide⟩
  have hlast : lastAttempt [10, 20, 30] missingAtLast = 2 := by
    rw [lastAttempt, hfirst]
    rfl
  obtain ⟨hschedule, -, hmissing⟩ := retry_schedule
  obtain ⟨-, run, hperform, -, -, hwaits, hsettled, -⟩ := hschedule [10, 20, 30] missingAtLast
  rw [hlast] at hwaits hsettled
  refine ⟨⟨run, hperform, hwaits, hsettled⟩, (hmissing _ _ _ _ _).2 ?_⟩
  refine ⟨"https://packages.test/com.test/1.0.0", .ok [], by decide +kernel, ?_⟩
  rw [hlast]
  rfl

end Request

end PackageAudit

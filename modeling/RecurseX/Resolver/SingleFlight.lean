import RecurseX.Resolver.Inflight

/-!
# One resolution at a time for each key

Without capacity evictions a key is meant to have at most one owner at work. An
owner gives its key back by name, after its slot is done: if the slot under the
key is already another owner's, that one drops out of the table and a third
caller starts over. `single_flight` holds in every run in which no owner drops
a slot that is not done yet.
-/

namespace RecurseX

open Library Std

/-- The owner's slot is not done yet. -/
def Owner.Pending {κ : Type} (owner : Owner κ) : Prop :=
  owner.phase = .working ∨ owner.phase = .filled

instance {κ : Type} (owner : Owner κ) : Decidable owner.Pending :=
  inferInstanceAs (Decidable (_ ∨ _))

namespace Inflight

variable {κ ν : Type} {cmp : κ → κ → Ordering}

/-- A claim of this key drops another one from a full table. -/
def Evicts (state : Inflight κ ν cmp) (key : κ) : Prop :=
  (∀ slot ∈ state.table[key]?, state.isDone slot = true) ∧
    state.max ≤ (state.table.erase key).size

/-- No claim drops another key from the table. -/
def Roomy (state : Inflight κ ν cmp) : InflightAction κ ν → Prop
  | .claim key => ¬ state.Evicts key
  | _ => True

/-- No owner drops a slot from the table that is not done. -/
def DropsDone (state : Inflight κ ν cmp) : InflightAction κ ν → Prop
  | .release index true => ∀ owner ∈ state.owners[index]?, ∀ slot ∈ state.table[owner.key]?,
      state.isDone slot = true
  | _ => True

instance (state : Inflight κ ν cmp) (key : κ) : Decidable (state.Evicts key) :=
  inferInstanceAs (Decidable (_ ∧ _))

instance (state : Inflight κ ν cmp) (action : InflightAction κ ν) :
    Decidable (state.Roomy action) :=
  match action with
  | .claim key => inferInstanceAs (Decidable (¬ state.Evicts key))
  | .publish .. | .abandon _ | .mark _ | .notify _ | .release .. | .read _ | .wake _ =>
      inferInstanceAs (Decidable True)

instance (state : Inflight κ ν cmp) (action : InflightAction κ ν) :
    Decidable (state.DropsDone action) :=
  match action with
  | .release index true => inferInstanceAs (Decidable (∀ owner ∈ state.owners[index]?,
      ∀ slot ∈ state.table[owner.key]?, state.isDone slot = true))
  | .release _ false | .claim _ | .publish .. | .abandon _ | .mark _ | .notify _ | .read _
  | .wake _ => inferInstanceAs (Decidable True)

/-- The slot of every owner at work is the one in the table. -/
def Listed (state : Inflight κ ν cmp) : Prop :=
  ∀ owner ∈ state.owners, owner.Pending → state.table[owner.key]? = some owner.slot

variable {limit : Nat} {state next : Inflight κ ν cmp}

/-- The slot of an owner at work is not done. -/
theorem Sound.not_done_of_pending (sound : state.Sound limit) {owner : Owner κ}
    (member : owner ∈ state.owners) (pending : owner.Pending) : state.isDone owner.slot = false := by
  obtain ⟨held, located, _, fits⟩ := sound.owning member
  have notDone : held.done = false := by
    rcases pending with working | filled
    · rw [working] at fits
      exact fits.2
    · rw [filled] at fits
      exact fits.2
  rw [isDone, located]
  exact notDone

/-- An owner that goes on to a later phase was listed before. -/
theorem Listed.advance (listed : state.Listed) {index slot : Nat} {key : κ} {phase later : Phase}
    (owns : state.owners[index]? = some ⟨key, slot, phase⟩)
    (earlier : Owner.Pending (⟨key, slot, later⟩ : Owner κ) →
      Owner.Pending (⟨key, slot, phase⟩ : Owner κ))
    (owners : next.owners = state.owners.set index ⟨key, slot, later⟩)
    (table : next.table = state.table) : next.Listed := by
  intro owner member pending
  rw [table]
  rw [owners] at member
  rcases List.mem_or_eq_of_mem_set member with old | rfl
  · exact listed owner old pending
  · exact listed ⟨key, slot, phase⟩ (List.mem_of_getElem? owns) (earlier pending)

theorem Listed.fill (listed : state.Listed) {index : Nat} {value : ν}
    (taken : state.fill index value = some next) : next.Listed := by
  unfold Inflight.fill at taken
  split at taken
  · rename_i key slot owns
    dsimp only at taken
    split at taken
    · obtain rfl := Option.some.inj taken
      exact listed.advance owns (fun _ => .inl rfl) rfl rfl
    · obtain rfl := Option.some.inj taken
      exact listed.advance owns (fun _ => .inl rfl) rfl rfl
  · cases taken

theorem Listed.mark (listed : state.Listed) {index : Nat}
    (taken : state.mark index = some next) : next.Listed := by
  unfold Inflight.mark at taken
  split at taken
  · rename_i key slot owns
    obtain ⟨held, _, rfl⟩ := Option.map_eq_some_iff.mp taken
    exact listed.advance owns (fun _ => .inr rfl) rfl rfl
  · cases taken

theorem Listed.notify (listed : state.Listed) {index : Nat}
    (taken : state.notify index = some next) : next.Listed := by
  unfold Inflight.notify at taken
  split at taken
  · rename_i key slot owns
    obtain rfl := Option.some.inj taken
    exact listed.advance owns (by rintro (working | filled) <;> contradiction) rfl rfl
  · cases taken

/-- Waiters come and go; the owners stay listed. -/
theorem Listed.read (listed : state.Listed) {index : Nat}
    (taken : state.read index = some next) : next.Listed := by
  unfold Inflight.read at taken
  split at taken
  · split_ifs at taken
    obtain rfl := Option.some.inj taken
    exact listed
  · cases taken

theorem Listed.wake (listed : state.Listed) {index : Nat}
    (taken : state.wake index = some next) : next.Listed := by
  unfold Inflight.wake at taken
  split at taken
  · obtain rfl := Option.some.inj taken
    exact listed
  · cases taken

variable [TransCmp cmp] [LawfulEqCmp cmp]

/-- An owner that drops a slot that is done leaves those at work listed. -/
theorem Listed.release (listed : state.Listed) (sound : state.Sound limit) {index : Nat}
    {locked : Bool} (drops : state.DropsDone (.release index locked))
    (taken : state.release index locked = some next) : next.Listed := by
  unfold Inflight.release at taken
  split at taken
  · rename_i key slot owns
    obtain rfl := Option.some.inj taken
    intro owner member pending
    have old : owner ∈ state.owners := List.mem_of_mem_eraseIdx member
    have found := listed owner old pending
    cases locked with
    | false => exact found
    | true =>
        change (state.table.erase key)[owner.key]? = some owner.slot
        rw [TreeMap.getElem?_erase]
        split_ifs with same
        · obtain rfl := LawfulEqCmp.eq_of_compare same
          have done : state.isDone owner.slot = true := drops _ owns owner.slot found
          rw [sound.not_done_of_pending old pending] at done
          cases done
        · exact found
  · cases taken

/-- A new owner is listed, and so are those of other keys. -/
theorem Listed.install (listed : state.Listed) {key : κ}
    (free : ∀ owner ∈ state.owners, owner.Pending → owner.key ≠ key)
    (room : state.table.size < state.max) : (state.install key).Listed := by
  have table : (state.install key).table = state.table.insert key state.slots.length := by
    change (if state.max ≤ state.table.size then _ else _ : TreeMap κ Nat cmp).insert _ _ = _
    rw [if_neg (Nat.not_le.mpr room)]
  intro owner member pending
  rw [table, TreeMap.getElem?_insert]
  rcases List.mem_append.mp member with old | new
  · rw [if_neg fun same => free owner old pending (LawfulEqCmp.eq_of_compare same).symm]
    exact listed owner old pending
  · obtain rfl := List.mem_singleton.mp new
    exact if_pos ReflCmp.compare_self

theorem Listed.claim (listed : state.Listed) (sound : state.Sound limit) {key : κ}
    (roomy : state.Roomy (.claim key)) : (state.claim key).Listed := by
  unfold Inflight.claim
  split
  · rename_i slot found
    split_ifs with done
    · have different : ∀ owner ∈ state.owners, owner.Pending → owner.key ≠ key := by
        rintro owner member pending rfl
        obtain rfl := Option.some.inj (found.symm.trans (listed owner member pending))
        rw [sound.not_done_of_pending member pending] at done
        cases done
      refine Listed.install ?_ different ?_
      · intro owner member pending
        change (state.table.erase key)[owner.key]? = some owner.slot
        rw [TreeMap.getElem?_erase,
          if_neg fun same => different owner member pending (LawfulEqCmp.eq_of_compare same).symm]
        exact listed owner member pending
      · refine Nat.not_le.mp fun full => roomy ⟨?_, full⟩
        intro other member
        obtain rfl := Option.some.inj (found.symm.trans member)
        exact done
    · exact listed
  · rename_i vacant
    have absent : ¬ state.table.contains key = true := by
      rw [TreeMap.contains_eq_isSome_getElem?, vacant]
      exact Bool.false_ne_true
    refine listed.install ?_ ?_
    · rintro owner member pending rfl
      rw [listed owner member pending] at vacant
      cases vacant
    · refine Nat.not_le.mp fun full => roomy ⟨?_, ?_⟩
      · intro slot member
        rw [vacant] at member
        cases member
      · rw [TreeMap.size_erase, if_neg absent]
        exact full

/-- Every action without an eviction and without the loss of a slot that is not
done keeps the owners at work listed. -/
theorem Listed.step (listed : state.Listed) (sound : state.Sound limit) {aborted : ν}
    {action : InflightAction κ ν} (roomy : state.Roomy action) (drops : state.DropsDone action)
    (taken : state.step aborted action = some next) : next.Listed := by
  cases action with
  | claim key =>
      obtain rfl := Option.some.inj taken
      exact listed.claim sound roomy
  | publish owner value => exact listed.fill taken
  | abandon owner => exact listed.fill taken
  | mark owner => exact listed.mark taken
  | notify owner => exact listed.notify taken
  | release owner locked => exact listed.release sound drops taken
  | read waiter => exact listed.read taken
  | wake waiter => exact listed.wake taken

/-- The parties agree and the owners at work are listed. -/
structure Tracked (limit : Nat) (state : Inflight κ ν cmp) : Prop where
  sound : state.Sound limit
  listed : state.Listed

theorem Tracked.step (tracked : state.Tracked limit) {aborted : ν}
    {action : InflightAction κ ν} (roomy : state.Roomy action) (drops : state.DropsDone action)
    (taken : state.step aborted action = some next) : next.Tracked limit :=
  ⟨tracked.sound.step taken, tracked.listed.step tracked.sound roomy drops taken⟩

/-- In every interleaving without an eviction, in which no owner drops a slot that
is not done, a key has at most one owner that has not published. -/
theorem single_flight (aborted : ν) (max : Nat) {actions : List (InflightAction κ ν)}
    (runs : Runs (step aborted) (fun state action => state.Roomy action ∧ state.DropsDone action)
      (new max) actions state) :
    state.owners.Pairwise fun left right => left.Pending → right.Pending → left.key ≠ right.key := by
  obtain ⟨sound, listed⟩ : state.Tracked (Nat.max max 1) :=
    runs.invariant (fun tracked meets taken => tracked.step meets.1 meets.2 taken)
      ⟨sound_new max, nofun⟩
  have distinct : state.owners.Pairwise fun left right => left.slot ≠ right.slot :=
    List.pairwise_map.mp sound.single
  refine distinct.imp_of_mem ?_
  intro left right leftMember rightMember different leftPending rightPending same
  have leftFound := listed left leftMember leftPending
  rw [same, listed right rightMember rightPending] at leftFound
  exact different (Option.some.inj leftFound).symm

end Inflight

instance : DecidableEq QueryKey := fun _ _ =>
  decidable_of_iff _ LawfulEqOrd.compare_eq_iff_eq

/-- An owner is followed by a second one after it has given back its key. -/
def successiveActions : List (InflightAction QueryKey (Except ResolveError Resolution)) :=
  [.claim (wwwQuery none), .claim (wwwQuery none), .publish 0 (.error .emptyResponse), .mark 0,
    .notify 0, .release 0 true, .claim (wwwQuery none)]

/-- The second owner is the only one. -/
theorem successive_owner_is_single :
    ∃ state : QueryInflight,
      Runs (Inflight.step (.error .cnameLoop))
        (fun state action => state.Roomy action ∧ state.DropsDone action)
        (.new 4) successiveActions state ∧
      state.owners.Pairwise fun left right =>
        left.Pending → right.Pending → left.key ≠ right.key := by
  obtain ⟨state, computed⟩ := Option.isSome_iff_exists.mp
    (show (runActions (Inflight.step (.error .cnameLoop))
      (fun state action => state.Roomy action ∧ state.DropsDone action)
      (.new 4 : QueryInflight) successiveActions).isSome = true by decide)
  have runs := runs_of_runActions computed
  exact ⟨state, runs, Inflight.single_flight _ _ runs⟩

/-- An owner publishes, a second one replaces its slot, the first gives back the key,
a third claims it. -/
def overtakenActions : List (InflightAction QueryKey (Except ResolveError Resolution)) :=
  [.claim (wwwQuery none), .publish 0 (.error .emptyResponse), .mark 0, .notify 0,
    .claim (wwwQuery none), .release 0 true, .claim (wwwQuery none)]

/-- Two owners that have not published, for one query and without an eviction. -/
theorem late_release_breaks_single_flight :
    ∃ state : QueryInflight,
      Runs (Inflight.step (.error .cnameLoop)) (fun state action => state.Roomy action)
        (.new 4) overtakenActions state ∧
      ¬ state.owners.Pairwise fun left right =>
        left.Pending → right.Pending → left.key ≠ right.key := by
  have broken : (runActions (Inflight.step (.error .cnameLoop))
      (fun state action => state.Roomy action) (.new 4 : QueryInflight) overtakenActions).map
      (fun state => decide (state.owners.Pairwise fun left right =>
        left.Pending → right.Pending → left.key ≠ right.key)) = some false := by
    decide
  obtain ⟨state, computed, twice⟩ := Option.map_eq_some_iff.mp broken
  exact ⟨state, runs_of_runActions computed, of_decide_eq_false twice⟩

end RecurseX

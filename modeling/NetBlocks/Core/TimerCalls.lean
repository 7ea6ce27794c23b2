import NetBlocks.Core.IngressSpec
import NetBlocks.Runtime.TimerList

/-
  What the calls do to the timer pool: sending takes a timer
  off the free list, and checking the timers puts those that
  fire back into the active list.

  Main declarations:
    * `startTimer_represents`
    * `Fires` and `checkTimers_fires`
-/

namespace NetBlocks

open Except

variable {P : Type}

------------------------------------------------------------
-- Starting a Timer
------------------------------------------------------------

/-
  A packet is sent with a timer from the free list, which
  becomes active with the packet as its argument.
-/
theorem startTimer_represents
    {cfg : Config}
    {now : BitVec 64}
    {p : PacketPtr}
    {pool timers : TimerPool}
    {t : Option TimerPtr}
    {active free : List TimerPtr}
    (hReliable : cfg.reliableEnabled = true)
    (hPool : pool.Represents active free)
    (hStart : startTimer cfg now p pool = .ok (t, timers)) :
    ∃ u free' active', t = some u ∧ free = u :: free' ∧
      timers.Represents active' free' ∧
      active'.Perm (u :: active) ∧
      (timers.allocatedTimers u).argument = p ∧
      ∀ x, x ≠ u →
        (timers.allocatedTimers x).argument =
          (pool.allocatedTimers x).argument := by
  rw [startTimer, if_pos hReliable] at hStart
  rcases map_eq_ok_iff.mp hStart with
    ⟨timers', hInsert, hEnd⟩
  cases hEnd
  cases free with
  | nil =>
      rw [TimerPool.allocTimer_nil hPool] at hInsert
      cases hInsert
  | cons u free' =>
      rcases TimerPool.allocTimer_cons hPool with
        ⟨pool', hAlloc, hPool', hOff, hLoad⟩
      rcases TimerPool.insertTimer_represents
          (now + ReliableModule.redeliveryTimeoutMs)
          .reliableRedeliveryTimerCb p hPool' hOff with
        ⟨pool'', hInsert', hPool'', hOwn, hOthers⟩
      rw [hAlloc] at hInsert ⊢
      cases hInsert.symm.trans hInsert'
      refine ⟨u, free', _, rfl, rfl, hPool'',
        TimerPool.insertInto_perm _ _ _ _, ?_, ?_⟩
      · exact congrArg (fun load => load.2.1) hOwn
      · intro x hx
        exact (TimerPool.argument_eq_of_load_eq
          (hOthers x hx)).trans
            (TimerPool.argument_eq_of_load_eq (hLoad x))

/- A timer is started whenever the free list has one. -/
theorem startTimer_ok
    {cfg : Config}
    {pool : TimerPool}
    {u : TimerPtr}
    {active free : List TimerPtr}
    (now : BitVec 64)
    (p : PacketPtr)
    (hReliable : cfg.reliableEnabled = true)
    (hPool : pool.Represents active (u :: free)) :
    ∃ timers, startTimer cfg now p pool =
      .ok (some u, timers) := by
  rcases TimerPool.allocTimer_cons hPool with
    ⟨pool', hAlloc, hPool', hOff, -⟩
  rcases TimerPool.insertTimer_represents
      (now + ReliableModule.redeliveryTimeoutMs)
      .reliableRedeliveryTimerCb p hPool' hOff with
    ⟨timers, hInsert, -⟩
  refine ⟨timers, ?_⟩
  rw [startTimer, if_pos hReliable, hAlloc, hInsert]
  rfl

------------------------------------------------------------
-- Firing Timers
------------------------------------------------------------

/- What the transport is handed of the packet at `p`. -/
def Endpoint.onWire
    (fmt : PacketFormat P)
    (e : Endpoint P)
    (p : PacketPtr) : P × BitVec 32 :=
  (e.packets p,
    fmt.getWord .computedTotalLen (e.packets p))

/-
  Timers fired for the packets listed, which were sent again.
  Every active timer stays active, for the same packet.
-/
inductive Fires
    (fmt : PacketFormat P)
    (active free : List TimerPtr)
    (e : Endpoint P) : Endpoint P → Prop
| intro {timers : TimerPool} {active' : List TimerPtr}
    {fired : List PacketPtr} :
    timers.Represents active' free →
    active'.Perm active →
    (∀ t, (timers.allocatedTimers t).argument =
      (e.timers.allocatedTimers t).argument) →
    (∀ p ∈ fired, ∃ t ∈ active,
      (e.timers.allocatedTimers t).argument = p) →
    Fires fmt active free e
      { e with
        timers := timers
        out := e.out ++ fired.map (e.onWire fmt) }

/- No timer needs to fire. -/
theorem Fires.refl
    {fmt : PacketFormat P}
    {active free : List TimerPtr}
    {e : Endpoint P}
    (hPool : e.timers.Represents active free) :
    Fires fmt active free e e := by
  have hNone : Fires fmt active free e
      { e with
        timers := e.timers
        out := e.out ++ [].map (e.onWire fmt) } :=
    .intro hPool (List.Perm.refl _) (fun _ => rfl) (by simp)
  rw [List.map_nil, List.append_nil] at hNone
  exact hNone

/- The first active timer fires, and is started anew. -/
theorem runCallback_fires
    {fmt : PacketFormat P}
    {t : TimerPtr}
    {active free : List TimerPtr}
    {now : BitVec 64}
    {e e₁ : Endpoint P}
    (hPool : e.timers.Represents (t :: active) free)
    (hCallback : runCallback fmt t now
      { e with timers := e.timers.removeTimer t } = .ok e₁) :
    Fires fmt (t :: active) free e e₁ := by
  have hFront : e.timers.Represents ([] ++ t :: active)
      free := hPool
  have hRemoved := TimerPool.removeTimer_represents hFront
  rw [List.nil_append] at hRemoved
  have hOff : t ∉ active ++ free :=
    (List.nodup_cons.mp hPool.nodup).1
  have hArgument := TimerPool.argument_removeTimer e.timers t
  simp only [runCallback, ReliableModule.redeliveryCb]
    at hCallback
  rcases bind_eq_ok_iff.mp hCallback with
    ⟨timers, hInsert, hEnd⟩
  cases hEnd
  rcases TimerPool.insertTimer_represents
      (now + ReliableModule.redeliveryTimeoutMs)
      .reliableRedeliveryTimerCb
      ((e.timers.removeTimer t).allocatedTimers t).argument
      hRemoved hOff with
    ⟨timers', hInsert', hPool', hOwn, hOthers⟩
  cases hInsert.symm.trans hInsert'
  refine @Fires.intro P fmt _ free e _ _
    [((e.timers.removeTimer t).allocatedTimers t).argument]
    hPool' (TimerPool.insertInto_perm _ _ _ _) ?_ ?_
  · intro u
    by_cases hEq : u = t
    · subst hEq
      exact (congrArg (fun load => load.2.1) hOwn).trans
        (hArgument u)
    · exact (TimerPool.argument_eq_of_load_eq
        (hOthers u hEq)).trans (hArgument u)
  · intro p hp
    exact ⟨t, List.mem_cons_self .., by
      rw [List.mem_singleton.mp hp, hArgument]⟩

theorem Fires.active
    {fmt : PacketFormat P}
    {active free : List TimerPtr}
    {e e' : Endpoint P}
    (hFires : Fires fmt active free e e') :
    ∃ active', e'.timers.Represents active' free ∧
      active'.Perm active := by
  rcases hFires with ⟨hPool, hPerm, -, -⟩
  exact ⟨_, hPool, hPerm⟩

theorem Fires.trans
    {fmt : PacketFormat P}
    {active active₁ free : List TimerPtr}
    {e e₁ e₂ : Endpoint P}
    (hFirst : Fires fmt active free e e₁)
    (hPerm : active₁.Perm active)
    (hSecond : Fires fmt active₁ free e₁ e₂) :
    Fires fmt active free e e₂ := by
  rcases hFirst with @⟨timers, _, fired, -, -, hArg, hFired⟩
  rcases hSecond with
    @⟨timers', active', fired', hPool', hPerm', hArg', hFired'⟩
  have hResult : Fires fmt active free e
      { e with
        timers := timers'
        out := e.out ++
          (fired ++ fired').map (e.onWire fmt) } := by
    refine .intro hPool' (hPerm'.trans hPerm)
      (fun t => (hArg' t).trans (hArg t)) ?_
    intro p hp
    rcases List.mem_append.mp hp with hp | hp
    · exact hFired p hp
    · rcases hFired' p hp with ⟨t, ht, hOf⟩
      exact ⟨t, hPerm.mem_iff.mp ht, (hArg t).symm.trans hOf⟩
  rw [List.map_append, ← List.append_assoc] at hResult
  exact hResult

/- The loop of `nb__check_timers` only fires timers. -/
theorem checkTimersLoop_fires
    {fmt : PacketFormat P}
    {active free : List TimerPtr}
    {now : BitVec 64}
    {fuel : Nat}
    {e e' : Endpoint P}
    (hPool : e.timers.Represents active free)
    (hCheck : checkTimersLoop fmt now fuel e = .ok e') :
    Fires fmt active free e e' := by
  induction fuel generalizing active e with
  | zero => cases hCheck
  | succ fuel ih =>
      rw [checkTimersLoop] at hCheck
      split at hCheck
      · cases hCheck
        exact .refl hPool
      · next t hHead =>
          split at hCheck
          · rcases bind_eq_ok_iff.mp hCheck with
              ⟨e₁, hCallback, hRest⟩
            cases active with
            | nil =>
                cases hHead.symm.trans hPool.active_lists.1
            | cons u rest =>
                cases hHead.symm.trans hPool.active_lists.1
                have hFirst := runCallback_fires hPool
                  hCallback
                rcases hFirst.active with
                  ⟨active₁, hPool₁, hPerm⟩
                exact hFirst.trans hPerm (ih hPool₁ hRest)
          · cases hCheck
            exact .refl hPool

/- `nb__check_timers` only fires timers. -/
theorem checkTimers_fires
    {fmt : PacketFormat P}
    {active free : List TimerPtr}
    {e e' : Endpoint P}
    (hPool : e.timers.Represents active free)
    (hCheck : checkTimers fmt e = .ok e') :
    Fires fmt active free e e' :=
  checkTimersLoop_fires hPool hCheck

end NetBlocks

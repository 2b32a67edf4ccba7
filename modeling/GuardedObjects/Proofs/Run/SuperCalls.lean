import GuardedObjects.Proofs.Registry.Friends
import GuardedObjects.Proofs.Registry.Linearized
import GuardedObjects.Proofs.Run.Kinds

/-!
# Super calls

A body that runs on a receiver belongs to one place of the resolution order of the receiver's class,
and a super call goes on from there. A chain of super calls on one receiver therefore runs through
the methods that the resolution order has under the name, in their order and each of them once. At
the last of them it fails.
-/

namespace GuardedObjects

namespace ClassTable

variable {t : ClassTable} {c k : ClassInfo} {before after : List ClassInfo} {n : String}

theorem WellOrdered.closed (h : t.WellOrdered) : t.Closed := by
  have hearlier {c : ClassInfo} (hc : c ∈ t.classes) :
      ∀ name ∈ c.bases ++ c.ancestors, t.contains name = true := by
    intro name hname
    obtain ⟨before, after, hsplit⟩ := List.append_of_mem hc
    obtain ⟨k, -, hk⟩ := h.earlier before c after hsplit name hname
    rw [contains, hk]
    rfl
  exact ⟨fun c hc => h.find?_self hc,
    fun c hc name hname => hearlier hc name (List.mem_append_left _ hname),
    fun c hc name hname => hearlier hc name (List.mem_append_right _ hname)⟩

theorem WellOrdered.nodup_lineage (h : t.WellOrdered) (hc : c ∈ t.classes) :
    ((t.lineage c).map ClassInfo.name).Nodup := by
  rw [h.closed.map_name_lineage hc]
  exact h.nodup_order c hc

end ClassTable

namespace Program

variable {p : Program} {c k : ClassInfo} {before after : List ClassInfo} {n : String}

/-- The methods that a class and its ancestors have under a name, in resolution order. -/
def implementations (p : Program) (c : ClassInfo) (n : String) : List Callable :=
  (p.classes.lineage c).filterMap (·.method? n)

/-- What a super call comes to in a body of the class `owner`, on a receiver of class `c`, if
`next?` is the method that it selects. -/
def superAnswer (c : ClassInfo) (frame : Frame) (owner n : String) (args : Arguments) :
    Option Callable → Except Fault Answer
  | none => .error (.undefinedMember owner n)
  | some m =>
    .ok (.invoke { callable := m, receiver := m.kind.receiver frame.receiver c.name, args })

/-- The body of `b` was started by a super call out of the frame of `a`. -/
def SuperCalls (es : List Event) (n : String) (a b : Activation) : Prop :=
  ∃ args, .started a.frame (.callSuper n args) b ∈ es

theorem classesAfter_eq (hnodup : ((p.classes.lineage c).map ClassInfo.name).Nodup)
    (hsplit : p.classes.lineage c = before ++ k :: after) : p.classesAfter c k.name = after := by
  rw [hsplit, List.map_append, List.map_cons, List.nodup_append] at hnodup
  have hbefore : ∀ j ∈ before, decide (j.name ≠ k.name) = true := by
    intro j hj
    simpa using hnodup.2.2 j.name (List.mem_map_of_mem hj) k.name List.mem_cons_self
  rw [classesAfter, hsplit, List.dropWhile_append_of_pos hbefore,
    List.dropWhile_cons_of_neg (by simp)]
  rfl

/-- A super call selects the first method behind the class of the body that makes it. -/
theorem callSuper_eq (hc : p.classes.find? c.name = some c)
    (hnodup : ((p.classes.lineage c).map ClassInfo.name).Nodup)
    (hsplit : p.classes.lineage c = before ++ k :: after) {frame : Frame}
    (hcaller : frame.caller.declaring? = some k.name)
    (hr : frame.receiver.className? = some c.name) (hn : Visibility.ofName n ≠ .priv)
    (args : Arguments) :
    p.callSuper frame.caller frame.receiver n args =
      superAnswer c frame k.name n args (after.findSome? (·.method? n)) := by
  rw [callSuper, hcaller, hr, Option.bind_some, hc, ← ClassTable.map_firstOwner?,
    ← classesAfter_eq hnodup hsplit]
  simp only [if_neg hn]
  cases ClassTable.firstOwner? (·.method? n) (p.classesAfter c k.name) with
  | none => rfl
  | some found =>
      obtain ⟨owner, m⟩ := found
      simp only [Option.map_some, superAnswer]
      cases m.kind <;> rfl

/-! ### Places of bodies -/

variable {es : List Event} {s : RunState} {frame : Frame} {q : Request} {a b : Activation}

theorem Run.entered_of_started (h : p.Run {} es s) (ha : .started frame q a ∈ es) :
    a.Entered p := by
  obtain ⟨before, after, u, t, -, hrun, hst⟩ := h.split_of_mem ha
  have hall := hst.allEntered hrun.allEntered
  cases hst with
  | start => exact hall _ List.mem_cons_self

/-- A body that runs on a receiver of a class is that of a method of some class in the resolution
order, which owns it. -/
theorem Run.exists_owner (hp : p.Linked) (h : p.Run {} es s) (hc : c ∈ p.classes.classes)
    (ha : .started frame q a ∈ es) (hr : a.frame.receiver.className? = some c.name) :
    ∃ k ∈ p.classes.lineage c, a.callable.owner = some k.name := by
  have hself := hp.wellOrdered.find?_self hc
  obtain ⟨before, after, u, t, -, hrun, hst⟩ := h.split_of_mem ha
  have hplaced := hst.allPlaced hrun.allPlaced
  rw [(h.entered_of_started ha).receiver_eq] at hr
  cases hst with
  | start =>
      have hoffers := (hplaced _ List.mem_cons_self).offered c.name hr
      obtain ⟨c', hc', howner⟩ := hp.owner_of_offers hoffers
      cases hself.symm.trans hc'
      exact howner

theorem Run.mediate_callSuper (hp : p.Linked) (h : p.Run {} es s) (hc : c ∈ p.classes.classes)
    (hn : Visibility.ofName n ≠ .priv) (ha : .started frame q a ∈ es)
    (hr : a.frame.receiver.className? = some c.name)
    (hsplit : p.classes.lineage c = before ++ k :: after)
    (howner : a.callable.owner = some k.name) (args : Arguments) (w : World) :
    p.mediate a.frame (.callSuper n args) w =
      (superAnswer c a.frame k.name n args (after.findSome? (·.method? n)), w) := by
  have hcaller : a.frame.caller.declaring? = some k.name := by
    rw [(h.entered_of_started ha).declaring?_eq, howner]
  rw [← callSuper_eq (hp.wellOrdered.find?_self hc) (hp.wellOrdered.nodup_lineage hc) hsplit hcaller
    hr hn args]
  rfl

/-- What a super call has started is the first method behind the class of the body that made it. -/
theorem Run.findSome?_of_superCalls (hp : p.Linked) (h : p.Run {} es s)
    (hc : c ∈ p.classes.classes) (hn : Visibility.ofName n ≠ .priv)
    (ha : .started frame q a ∈ es) (hr : a.frame.receiver.className? = some c.name)
    (hsplit : p.classes.lineage c = before ++ k :: after)
    (howner : a.callable.owner = some k.name) (hcalls : SuperCalls es n a b) :
    after.findSome? (·.method? n) = some b.callable := by
  obtain ⟨args, hb⟩ := hcalls
  obtain ⟨-, -, u, t, -, -, hst⟩ := h.split_of_mem hb
  cases hst with
  | start _ hq _ =>
      rw [h.mediate_callSuper hp hc hn ha hr hsplit howner] at hq
      cases hnext : after.findSome? (·.method? n) with
      | none =>
          rw [hnext] at hq
          cases hq
      | some m =>
          rw [hnext] at hq
          cases hq
          rfl

/-! ### Chains of super calls -/

theorem filterMap_of_behind (hbefore : ∀ j ∈ before, j.method? n = none) :
    (before ++ after).filterMap (·.method? n) = after.filterMap (·.method? n) := by
  rw [List.filterMap_append, List.filterMap_eq_nil_iff.mpr hbefore, List.nil_append]

/-- By induction on the chain: from a place of the resolution order on, it runs through what is
there under the name. -/
theorem Run.chain_from (hp : p.Linked) (h : p.Run {} es s) (hc : c ∈ p.classes.classes)
    (hn : Visibility.ofName n ≠ .priv) {as : List Activation}
    (ha : ∃ frame q, .started frame q a ∈ es)
    (hr : ∀ b ∈ a :: as, b.frame.receiver.className? = some c.name)
    (hsplit : p.classes.lineage c = before ++ k :: after)
    (hm : k.method? n = some a.callable) (hchain : (a :: as).IsChain (SuperCalls es n)) :
    ∃ last owner rest, (a :: as).getLast? = some last ∧ last.callable.owner = some owner ∧
      (k :: after).filterMap (·.method? n) = (a :: as).map Activation.callable ++ rest ∧
      ∀ args w, p.mediate last.frame (.callSuper n args) w =
        (superAnswer c last.frame owner n args rest.head?, w) := by
  have hself := hp.wellOrdered.find?_self hc
  induction as generalizing a k before after with
  | nil =>
      obtain ⟨frame, q, ha⟩ := ha
      have hk : k ∈ p.classes.lineage c := by simp [hsplit]
      have howner := (hp.accepted_of_mem_lineage hself hk hm).owner_eq
      refine ⟨a, k.name, after.filterMap (·.method? n), rfl, howner, ?_, ?_⟩
      · rw [List.filterMap_cons, hm]
        rfl
      · intro args w
        rw [h.mediate_callSuper hp hc hn ha (hr a List.mem_cons_self) hsplit howner,
          List.head?_filterMap]
  | cons b as ih =>
      obtain ⟨frame, q, ha⟩ := ha
      rw [List.isChain_cons_cons] at hchain
      obtain ⟨hcalls, hchain⟩ := hchain
      have hk : k ∈ p.classes.lineage c := by simp [hsplit]
      have howner := (hp.accepted_of_mem_lineage hself hk hm).owner_eq
      have hnext := h.findSome?_of_superCalls hp hc hn ha (hr a List.mem_cons_self) hsplit howner
        hcalls
      obtain ⟨between, j, after', rfl, hj, hbetween⟩ := List.findSome?_eq_some_iff.mp hnext
      have hsplit' : p.classes.lineage c = (before ++ k :: between) ++ j :: after' := by
        simp [hsplit]
      obtain ⟨args, hb⟩ := hcalls
      obtain ⟨last, owner, rest, hlast, hlastOwner, hrest, hanswer⟩ :=
        ih ⟨_, _, hb⟩ (fun b hb => hr b (List.mem_cons_of_mem _ hb)) hsplit' hj hchain
      refine ⟨last, owner, rest, by rwa [List.getLast?_cons_cons], hlastOwner, ?_, hanswer⟩
      have hbehind := (filterMap_of_behind hbetween).trans hrest
      rw [List.filterMap_cons, hm, hbehind]
      rfl

/-- No two of the methods belong to one class. -/
theorem Linked.nodup_owner_implementations (hp : p.Linked) (hc : c ∈ p.classes.classes) :
    ((p.implementations c n).map Callable.owner).Nodup := by
  have hself := hp.wellOrdered.find?_self hc
  have hnames := hp.wellOrdered.nodup_lineage hc
  rw [List.Nodup, List.pairwise_map] at hnames
  rw [List.Nodup, List.pairwise_map, implementations, List.pairwise_filterMap]
  refine hnames.imp_of_mem ?_
  intro k j hk hj hne m hm m' hm' heq
  rw [(hp.accepted_of_mem_lineage hself hk hm).owner_eq,
    (hp.accepted_of_mem_lineage hself hj hm').owner_eq] at heq
  exact hne (Option.some.inj heq)

/-- A body that runs on a receiver of class `c` is that of a method of some class, which occurs once
in the resolution order of `c`, and a super call of it selects the first method of the name behind
that class. Where super calls start with the method that `c` has under the name and follow one
another on receivers of class `c`, they have come through the methods of the name from the front of
the resolution order, and the next one selects the next method. At the last one it fails, and names
the class of that. No method is among them twice. -/
theorem Run.super_chain (hp : p.Linked) (h : p.Run {} es s) (hc : c ∈ p.classes.classes)
    (hn : Visibility.ofName n ≠ .priv) :
    (∀ frame q a, .started frame q a ∈ es → a.frame.receiver.className? = some c.name →
      ∃ k before after, p.classes.lineage c = before ++ k :: after ∧
        a.callable.owner = some k.name ∧ c.order.count k.name = 1 ∧
        ∀ args w, p.mediate a.frame (.callSuper n args) w =
          (superAnswer c a.frame k.name n args (after.findSome? (·.method? n)), w)) ∧
    (∀ a as, p.classes.method? c n = some a.callable → (∃ frame q, .started frame q a ∈ es) →
      (∀ b ∈ a :: as, b.frame.receiver.className? = some c.name) →
      (a :: as).IsChain (SuperCalls es n) →
        ∃ last owner rest, (a :: as).getLast? = some last ∧ last.callable.owner = some owner ∧
          p.implementations c n = (a :: as).map Activation.callable ++ rest ∧
          ∀ args w, p.mediate last.frame (.callSuper n args) w =
            (superAnswer c last.frame owner n args rest.head?, w)) ∧
    ((p.implementations c n).map Callable.owner).Nodup := by
  refine ⟨?_, ?_, hp.nodup_owner_implementations hc⟩
  · intro frame q a ha hr
    obtain ⟨k, hk, howner⟩ := h.exists_owner hp hc ha hr
    obtain ⟨before, after, hsplit⟩ := List.append_of_mem hk
    refine ⟨k, before, after, hsplit, howner, ?_, ?_⟩
    · have hmem : k.name ∈ c.order := by
        rw [← hp.wellOrdered.closed.map_name_lineage hc]
        exact List.mem_map_of_mem hk
      exact List.count_eq_one_of_mem (hp.wellOrdered.nodup_order c hc) hmem
    · intro args w
      exact h.mediate_callSuper hp hc hn ha hr hsplit howner args w
  · intro a as hm ha hr hchain
    obtain ⟨before, k, after, hsplit, hk, hbefore⟩ := List.findSome?_eq_some_iff.mp hm
    obtain ⟨last, owner, rest, hlast, howner, hrest, hanswer⟩ :=
      h.chain_from hp hc hn ha hr hsplit hk hchain
    refine ⟨last, owner, rest, hlast, howner, ?_, hanswer⟩
    rw [implementations, hsplit, filterMap_of_behind hbefore, hrest]

/-- A chapter calls by way of its guild, and the guild by way of nobody. -/
theorem Run.super_chain_guilds :
    ∃ chapter ∈ guilds.classes.classes,
      guilds.implementations chapter "call" =
        [chapterCalling.callable, guildCalling.callable] ∧
      ∀ args w, guilds.mediate guildCalling.frame (.callSuper "call" args) w =
        (.error (.undefinedMember "Guild" "call"), w) := by
  have hdispatch : (guilds.classes.find? "Chapter").bind (guilds.classes.method? · "call") =
      some chapterCalling.callable := by cbv
  have hcount : ((guilds.classes.find? "Chapter").map fun c =>
      (guilds.implementations c "call").length) = some 2 := by cbv
  obtain ⟨chapter, hfind, hdispatch⟩ := Option.bind_eq_some_iff.mp hdispatch
  rw [hfind, Option.map_some, Option.some.injEq] at hcount
  have hname := ClassTable.name_of_find? hfind
  have hchapter := List.mem_of_find?_eq_some hfind
  have hchain : [chapterCalling, guildCalling].IsChain (SuperCalls guildEvents "call") :=
    List.isChain_pair.mpr ⟨{}, by simp [guildEvents]⟩
  obtain ⟨-, hruns, -⟩ :=
    Run.super_chain linked_guilds run_guilds hchapter (n := "call") (by decide)
  obtain ⟨last, owner, rest, hlast, howner, hrest, hanswer⟩ :=
    hruns chapterCalling [guildCalling] hdispatch ⟨_, _, List.mem_cons_self⟩
      (by simp [hname, chapterCalling, guildCalling, Receiver.className?]) hchain
  cases hlast
  cases howner
  have hnone : rest = [] := by
    rw [hrest, List.length_append] at hcount
    exact List.length_eq_zero_iff.mp (Nat.add_left_cancel hcount)
  rw [hnone] at hrest hanswer
  exact ⟨chapter, hchapter, hrest, hanswer⟩

end Program

end GuardedObjects

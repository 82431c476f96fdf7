import Vetting.Proofs.RuleBook.Session
import Vetting.Record

/-!
# Fields that are lost and fields that are read

A rule names the fields that it loses, and a rule names the fields that it
reads. Both kinds of names are taken for identifiers by the shape of the owner,
but at different times: reads when the rule is registered, losses at the first
call that loses them while the owner has a shape. So a name that two rules have
in common keeps the one from being called after the other has lost it if the
name stood for the same field at both times; what it stands for in between, or
in the end, does not matter. Where a shape is defined before the rules are
registered, and stays, names always agree (`not_called_of_defined_once`).
-/

namespace Vetting

/-- The identifiers of the fields that the rule names as lost. -/
def ShapeBook.lostBy {ι : Type} (book : ShapeBook) (owner : TypeKey) (p : Posting ι) : NameSet :=
  .ofList (p.rule.discards.map fun r => book.identify owner r.name)

theorem ShapeBook.identify_define {book : ShapeBook} {ty ty' : TypeKey} {fs : List Field}
    (hne : ty ≠ ty') :
    (stateAfter (fun book' => book') (book.define ty' fs)).identify ty = book.identify ty := by
  cases h : book.define ty' fs with
  | error r => rw [stateAfter, define_eq_error h]
  | ok book' =>
    obtain ⟨shape, -, rfl⟩ := define_eq_ok_iff.1 h
    funext name
    simp only [stateAfter, identify, Table.get?_set, if_neg hne]

namespace Session

section
variable {ι : Type} [Typed ι]

def CalledAt (s : Session ι) (x : ι) (args : Option Arguments) (k : Nat) (p : Posting ι)
    (given : Arguments) (answer : Except Fault Outcome) : Prop :=
  Vetting.CalledAt s.bindings x args (s.line x) s.memos s.schema k p given answer

/-- A validation after these calls has the rule lose fields, and its owner has a shape. -/
def Settles (acts : List (Act ι)) (x : ι) (args : Option Arguments) (p : Posting ι)
    (owner : TypeKey) : Prop :=
  (after acts).schema.shapes.contains owner = true ∧ ∃ k given fields report,
    (after acts).CalledAt x args k p given (.ok (.discarding fields report))

def Unsettled (acts : List (Act ι)) (p : Posting ι) (owner : TypeKey) : Prop :=
  ∀ before x args, before ++ [.validate x args] <+: acts → ¬ Settles before x args p owner

/-- What `p` loses after the calls `acts` is settled after the calls `moment`: at the first
validation that has it lose fields while its owner has a shape, or now if there was none. -/
structure SettledAt (acts moment : List (Act ι)) (p : Posting ι) (owner : TypeKey) : Prop where
  reached : moment = acts ∨
    ∃ x args, moment ++ [.validate x args] <+: acts ∧ Settles moment x args p owner
  first : Unsettled moment p owner

variable {acts total before moment : List (Act ι)} {p q : Posting ι} {owner : TypeKey}
  {x : ι} {args : Option Arguments} {given : Arguments} {k : Nat} {answer : Except Fault Outcome}

theorem mem_line_of_calledAt {s : Session ι} (h : s.CalledAt x args k p given answer) :
    p ∈ s.line x := by
  obtain ⟨_, _, _, _, _, _, -, hl, -⟩ := h.reached
  rw [hl]
  exact List.mem_append_right _ List.mem_cons_self

/-! ## What a rule loses -/

omit [Typed ι] in
theorem lostFields_of_binding (schema schema' : Schema) (p : Posting ι) (owner : TypeKey) :
    p.rule.lostAfresh (some (binding schema p owner)) schema' = schema'.shapes.lostBy owner p ∧
      p.rule.settles (some (binding schema p owner)) schema' = schema'.shapes.contains owner := by
  have hask : (binding schema p owner).shapes.ask (binding schema p owner).owner .reading schema' =
      (schema'.shapes.shapeOf owner .reading, schema') := rfl
  unfold Rule.lostAfresh Rule.settles Rule.lostFields ShapeBook.lostBy
  rcases schema'.shapes.identify_cases owner with
    ⟨hknown, hshape, hname⟩ | ⟨shape, hknown, hshape, hname⟩
  · simp only [hask, hshape, hname, hknown]
    exact ⟨rfl, rfl⟩
  · simp only [hask, hshape, hname, hknown, List.map_map]
    exact ⟨rfl, rfl⟩

theorem only_of_registered (h : Registered total before p owner) (hpre : acts <+: total) :
    ∀ q ∈ (after acts).line x, q.id = p.id → q = p := by
  intro q hq hid
  obtain ⟨before', owner', hreg⟩ := registered_of_mem_line hq
  exact (registered_unique (hreg.of_prefix hpre) h hid).2.1

theorem binding_of_calledAt (h : Registered total before p owner) (hpre : acts <+: total)
    (hcall : (after acts).CalledAt x args k p given answer) :
    (after acts).bindings.get? p.id = some (binding (after before).schema p owner) := by
  obtain ⟨before', owner', hreg⟩ := registered_of_mem_line (mem_line_of_calledAt hcall)
  obtain ⟨rfl, -, rfl⟩ := registered_unique (hreg.of_prefix hpre) h rfl
  exact hreg.get?

/-! ## What a rule remembers -/

theorem memos_perform {s : Session ι} {act : Act ι} (h : ∀ x args, act ≠ .validate x args) :
    (s.perform act).memos = s.memos := by
  cases act with
  | validate x args => exact absurd rfl (h x args)
  | _ => rfl

theorem kept_of_perform (h : Registered total before p owner) (hpre : acts <+: total) (x : ι)
    (args : Option Arguments) :
    Kept (after acts).bindings (after acts).memos (after acts).schema p
      (∃ k given fields report,
        (after acts).CalledAt x args k p given (.ok (.discarding fields report)))
      ((after acts).perform (.validate x args)).memos
      ((after acts).perform (.validate x args)).schema :=
  kept_of_validate (bindings_still acts) (only_of_registered h hpre)

theorem unsettled_concat_iff {act : Act ι} : Unsettled (acts ++ [act]) p owner ↔
    Unsettled acts p owner ∧ ∀ x args, act = .validate x args → ¬ Settles acts x args p owner := by
  unfold Unsettled
  simp only [moment_concat_iff]
  constructor
  · refine fun h => ⟨fun before x args hpre => h before x args (Or.inl hpre), ?_⟩
    rintro x args rfl
    exact h acts x args (Or.inr ⟨rfl, rfl⟩)
  · rintro ⟨hall, hlast⟩ before x args (hpre | ⟨rfl, rfl⟩)
    · exact hall before x args hpre
    · exact hlast x args rfl

theorem discards_after_validate (h : Registered total before p owner) (hpre : acts <+: total)
    (x : ι) (args : Option Arguments) :
    (∀ names, ((after acts).memos.of p.id).discards = some names →
      (((after acts).perform (.validate x args)).memos.of p.id).discards = some names) ∧
    (((after acts).memos.of p.id).discards = none →
      (Settles acts x args p owner →
        (((after acts).perform (.validate x args)).memos.of p.id).discards =
          some ((after acts).schema.shapes.lostBy owner p)) ∧
      (¬ Settles acts x args p owner →
        (((after acts).perform (.validate x args)).memos.of p.id).discards = none)) := by
  have hkept := kept_of_perform h hpre x args
  refine ⟨fun names hnames => ?_, fun hnone => ⟨?_, fun hnot => ?_⟩⟩
  · rw [hkept.discards_eq_some (Or.inl (by rw [hnames]; rfl)), Bindings.lost, hnames]
    rfl
  · rintro ⟨hknown, k, given, fields, report, hcall⟩
    obtain ⟨hlost, hsettles⟩ :=
      lostFields_of_binding (after before).schema (after acts).schema p owner
    have hbound := binding_of_calledAt h hpre hcall
    rw [← hbound] at hlost hsettles
    rw [hkept.discards_eq_some (Or.inr ⟨hsettles.trans hknown, k, given, fields, report, hcall⟩),
      Bindings.lost, hnone, ← hlost]
    rfl
  · refine hkept.discards_eq_none hnone ?_
    rintro ⟨hsettles, k, given, fields, report, hcall⟩
    rw [binding_of_calledAt h hpre hcall, (lostFields_of_binding _ _ p owner).2] at hsettles
    exact hnot ⟨hsettles, k, given, fields, report, hcall⟩

/-- A rule remembers what it lost at the first moment at which that was settled, and nothing before
there was one. -/
theorem memory_after (h : Registered total before p owner) (hpre : acts <+: total) :
    (∃ moment x args, moment ++ [.validate x args] <+: acts ∧ Settles moment x args p owner ∧
      Unsettled moment p owner ∧
      ((after acts).memos.of p.id).discards = some ((after moment).schema.shapes.lostBy owner p)) ∨
    Unsettled acts p owner ∧ ((after acts).memos.of p.id).discards = none := by
  induction acts using List.reverseRecOn with
  | nil => exact Or.inr ⟨fun _ _ _ hnil => absurd hnil not_moment_nil, rfl⟩
  | append_singleton acts act ih =>
    have hacts := (List.prefix_append acts [act]).trans hpre
    rw [after_concat, unsettled_concat_iff]
    -- a moment that was found stays the first one; without one, only a validation can be it
    by_cases hval : ∃ x args, act = .validate x args
    · obtain ⟨x, args, rfl⟩ := hval
      obtain ⟨hsome, hnew⟩ := discards_after_validate h hacts x args
      rcases ih hacts with ⟨moment, y, args', hmoment, hset, hun, hdisc⟩ | ⟨hun, hdisc⟩
      · exact Or.inl ⟨moment, y, args', hmoment.trans (List.prefix_append _ _), hset, hun,
          hsome _ hdisc⟩
      · by_cases hset : Settles acts x args p owner
        · exact Or.inl ⟨acts, x, args, List.prefix_rfl, hset, hun, (hnew hdisc).1 hset⟩
        · refine Or.inr ⟨⟨hun, ?_⟩, (hnew hdisc).2 hset⟩
          intro y args' hact
          cases hact
          exact hset
    · have hother : ∀ x args, act ≠ .validate x args := fun x args hact => hval ⟨x, args, hact⟩
      rw [memos_perform hother]
      rcases ih hacts with ⟨moment, y, args', hmoment, hset⟩ | ⟨hun, hdisc⟩
      · exact Or.inl ⟨moment, y, args', hmoment.trans (List.prefix_append _ _), hset⟩
      · exact Or.inr ⟨⟨hun, fun y args' hact => absurd hact (hother y args')⟩, hdisc⟩

theorem lost_of_settledAt {fields : NameSet} {report : Report}
    (h : Registered acts before p owner)
    (hcall : (after acts).CalledAt x args k p given (.ok (.discarding fields report))) :
    ∃ moment, SettledAt acts moment p owner ∧
      fields = (after moment).schema.shapes.lostBy owner p := by
  have hlost := lost_of_calledAt (bindings_still acts) (only_of_registered h List.prefix_rfl) hcall
  rw [Bindings.lost] at hlost
  rcases memory_after h List.prefix_rfl with
    ⟨moment, y, args', hmoment, hset, hun, hdisc⟩ | ⟨hun, hdisc⟩
  · refine ⟨moment, ⟨Or.inr ⟨y, args', hmoment, hset⟩, hun⟩, ?_⟩
    rw [hlost, hdisc]
    rfl
  · refine ⟨acts, ⟨Or.inl rfl, hun⟩, ?_⟩
    rw [hlost, hdisc, h.get?]
    exact (lostFields_of_binding _ _ p owner).1

/-! ## Losses and reads -/

omit [Typed ι] in
theorem meets_lostBy_iff (schema : Schema) (book : ShapeBook) (p q : Posting ι) (owner : TypeKey) :
    (binding schema q owner).dependencies.meets (book.lostBy owner p) = true ↔
      ∃ r ∈ p.rule.discards, book.identify owner r.name ∈ q.rule.params ∨
        ∃ a ∈ q.rule.reads, schema.shapes.identify owner a = book.identify owner r.name := by
  have hlost : ∀ a, a ∈ book.lostBy owner p ↔
      ∃ r ∈ p.rule.discards, book.identify owner r.name = a := by
    intro a
    rw [ShapeBook.lostBy, NameSet.mem_ofList, List.mem_map]
  have hdeps : ∀ a, a ∈ (binding schema q owner).dependencies ↔
      (∃ b ∈ q.rule.reads, schema.shapes.identify owner b = a) ∨ a ∈ q.rule.params := by
    intro a
    rw [binding, NameSet.mem_union, NameSet.mem_map]
  simp only [NameSet.meets_iff, hlost, hdeps]
  constructor
  · rintro ⟨_, hdep, r, hr, rfl⟩
    exact ⟨r, hr, hdep.symm⟩
  · rintro ⟨r, hr, hdep⟩
    exact ⟨_, hdep.symm, r, hr, rfl⟩

theorem dependencies_of_registered (h : Registered acts before q owner) :
    (after acts).bindings.dependencies q.id =
      (binding (after before).schema q owner).dependencies := by
  rw [Bindings.dependencies, h.get?]
  rfl

theorem not_called_of_same_name {before' moment : List (Act ι)} {report : Report} {i j : Nat}
    {r : FieldRef} (hq : Registered acts before' q owner) (hr : r ∈ p.rule.discards)
    (hread : r.name ∈ q.rule.reads)
    (hname : (after before').schema.shapes.identify owner r.name =
      (after moment).schema.shapes.identify owner r.name)
    (hcall : (after acts).CalledAt x args i p given
      (.ok (.discarding ((after moment).schema.shapes.lostBy owner p) report))) (hij : i < j) :
    ∀ given answer, ¬ (after acts).CalledAt x args j q given answer := by
  intro given' answer hlater
  have hhit := (meets_lostBy_iff (after before').schema (after moment).schema.shapes p q owner).2
    ⟨r, hr, Or.inr ⟨r.name, hread, hname⟩⟩
  rw [← dependencies_of_registered hq, not_meets_of_calledAt hcall hlater hij] at hhit
  cases hhit

/-- What a rule loses at some place of a validation was settled at one moment. It reaches another
rule of the same owner just if a name that the one loses stood at that moment for what a name that
the other reads stood for when the other was registered, or for a parameter of the other. So a name
that they have in common, and that stood for the same both times, keeps the other from being called
at any later place. -/
theorem meets_lost_iff_and_not_called {before' : List (Act ι)} {fields : NameSet} {report : Report}
    {i j : Nat} (hp : Registered acts before p owner) (hq : Registered acts before' q owner)
    (hcall : (after acts).CalledAt x args i p given (.ok (.discarding fields report)))
    (hij : i < j) :
    ∃ moment, SettledAt acts moment p owner ∧
      (((after acts).bindings.dependencies q.id).meets fields = true ↔
        ∃ r ∈ p.rule.discards, (after moment).schema.shapes.identify owner r.name ∈ q.rule.params ∨
          ∃ a ∈ q.rule.reads, (after before').schema.shapes.identify owner a =
            (after moment).schema.shapes.identify owner r.name) ∧
      ∀ r ∈ p.rule.discards, r.name ∈ q.rule.reads →
        (after before').schema.shapes.identify owner r.name =
          (after moment).schema.shapes.identify owner r.name →
        ∀ given answer, ¬ (after acts).CalledAt x args j q given answer := by
  obtain ⟨moment, hsettled, rfl⟩ := lost_of_settledAt hp hcall
  have hmeets := meets_lostBy_iff (after before').schema (after moment).schema.shapes p q owner
  rw [← dependencies_of_registered hq] at hmeets
  exact ⟨moment, hsettled, hmeets, fun r hr hread hname =>
    not_called_of_same_name hq hr hread hname hcall hij⟩

end

def bodyLoser : Posting Record where
  id := 0
  rule := {
    name := "v", params := ∅, reads := ∅, signature := .method
    check := .returning fun _ _ => .error (.because "body is broken")
    target := none, discards := ["body"], owner := none }

def bodyReader : Posting Record where
  id := 1
  rule := {
    name := "w", params := ∅, reads := .ofList ["body"], signature := .method
    check := .returning fun _ _ => .error (.because "body was read")
    target := none, discards := [], owner := none }

/-- Both rules are registered while their owner has no shape, and then it has one in which `body`
is the declared name of another identifier. -/
def lateShape : List (Act Record) :=
  [.register bodyLoser "T", .register bodyReader "T",
    .define "T" [⟨"body_text", "body_text", "body", false⟩]]

/-- The second rule is called after the first has lost the field: the name stood for the field when
that was lost, and for itself when the second rule was registered. -/
theorem called_after_loss_of_lateShape :
    (after lateShape).CalledAt ⟨"T", ∅⟩ none 0 bodyLoser ∅
        (.ok (.discarding (.ofList ["body_text"]) (.message "body is broken"))) ∧
      (after lateShape).CalledAt ⟨"T", ∅⟩ none 1 bodyReader ∅
        (.ok (.failed (.message "body was read"))) ∧
      ∃ moment, SettledAt lateShape moment bodyLoser "T" ∧
        (after [.register bodyLoser "T"]).schema.shapes.identify "T" "body" ≠
          (after moment).schema.shapes.identify "T" "body" := by
  have hline : (after lateShape).line ⟨"T", ∅⟩ = [bodyLoser, bodyReader] := by
    show ((after lateShape).schema.lineage.walk "T").1.flatMap _ = _
    rw [Lineage.walk, Lineage.walkFrom]
    rfl
  have hloser : (after lateShape).CalledAt ⟨"T", ∅⟩ none 0 bodyLoser ∅
      (.ok (.discarding (.ofList ["body_text"]) (.message "body is broken"))) :=
    ⟨⟨[], [bodyReader], _, _, _, _, .start, hline, rfl, rfl, rfl⟩, rfl⟩
  have hreader : (after lateShape).CalledAt ⟨"T", ∅⟩ none 1 bodyReader ∅
      (.ok (.failed (.message "body was read"))) := by
    refine ⟨⟨[.ran bodyLoser ∅ (.discarding (.ofList ["body_text"]) (.message "body is broken"))],
      [], _, _, _, _, .run .start rfl rfl rfl rfl, hline, rfl, ?_, rfl⟩, rfl⟩
    decide +kernel
  have hcalledLoser : Registered lateShape [] bodyLoser "T" := ⟨⟨_, rfl⟩, _, rfl⟩
  have hcalledReader : Registered lateShape [.register bodyLoser "T"] bodyReader "T" :=
    ⟨⟨_, rfl⟩, _, rfl⟩
  obtain ⟨moment, hset, -, hnot⟩ :=
    meets_lost_iff_and_not_called hcalledLoser hcalledReader hloser Nat.zero_lt_one
  refine ⟨hloser, hreader, moment, hset, fun hname => ?_⟩
  exact hnot "body" (by decide) (by decide) hname _ _ hreader

section
variable {ι : Type} [Typed ι] {acts total before moment : List (Act ι)} {p q : Posting ι}
  {owner : TypeKey} {x : ι} {args : Option Arguments} {given : Arguments}

/-! ## While a shape stands -/

theorem SettledAt.registered (hset : SettledAt acts moment p owner)
    (h : Registered acts before p owner) : moment <+: acts ∧ before <+: moment := by
  have hbefore : before <+: before ++ [.register p owner] := List.prefix_append _ _
  rcases hset.reached with rfl | ⟨x, args, hpre, -, k, given, fields, report, hcall⟩
  -- what is called then is listed then, so it was registered before
  · exact ⟨List.prefix_rfl, hbefore.trans h.called⟩
  · have hmoment := prefix_of_moment hpre
    obtain ⟨_, _, hreg⟩ := registered_of_mem_line (mem_line_of_calledAt hcall)
    obtain ⟨rfl, -, rfl⟩ := registered_unique (hreg.of_prefix hmoment) h rfl
    exact ⟨hmoment, hbefore.trans hreg.called⟩

theorem identify_perform {act : Act ι} {ty : TypeKey} (h : Registered total before p owner)
    (hpre : acts <+: total) (hact : ∀ fields, act ≠ .define ty fields) :
    ((after acts).perform act).schema.shapes.identify ty =
      (after acts).schema.shapes.identify ty := by
  cases act with
  | define ty' fields => exact ShapeBook.identify_define fun heq => hact fields (by rw [heq])
  | register q ty' =>
    obtain ⟨lists, hbook⟩ := book_after acts
    obtain ⟨_, -, hstate⟩ :=
      offer_bookOf lists q ty' (after acts).bindings (after acts).schema
    simp only [perform, hbook, hstate]
  | validate x args => rw [(kept_of_perform h hpre x args).state]
  | relate lineage => rfl

theorem identify_after {first : List (Act ι)} {ty : TypeKey} (h : Registered total before p owner)
    (hfirst : first <+: acts) (hpre : acts <+: total)
    (hfixed : ∀ middle fields, first <+: middle → ¬ middle ++ [.define ty fields] <+: acts) :
    (after acts).schema.shapes.identify ty = (after first).schema.shapes.identify ty := by
  induction acts using List.reverseRecOn with
  | nil => rw [List.prefix_nil.1 hfirst]
  | append_singleton acts act ih =>
    rcases List.prefix_concat_iff.1 hfirst with rfl | hold
    · rfl
    · have hacts : acts <+: acts ++ [act] := List.prefix_append _ _
      rw [after_concat, identify_perform h (hacts.trans hpre)]
      · exact ih hold (hacts.trans hpre) fun middle fields hmid hdef =>
          hfixed middle fields hmid (hdef.trans hacts)
      · rintro fields rfl
        exact hfixed acts fields hold List.prefix_rfl

/-- A name that two rules have in common keeps the one from being called after the other has lost
it, if the shape of their owner was defined before both were registered, and never anew. -/
theorem not_called_of_defined_once {first before' : List (Act ι)} {fields : NameSet}
    {report : Report} {i j : Nat} {r : FieldRef} (hp : Registered acts before p owner)
    (hq : Registered acts before' q owner) (hfirst : first <+: before) (hfirst' : first <+: before')
    (hfixed : ∀ middle fields, first <+: middle → ¬ middle ++ [.define owner fields] <+: acts)
    (hr : r ∈ p.rule.discards) (hread : r.name ∈ q.rule.reads)
    (hcall : (after acts).CalledAt x args i p given (.ok (.discarding fields report)))
    (hij : i < j) : ∀ given answer, ¬ (after acts).CalledAt x args j q given answer := by
  obtain ⟨moment, hset, rfl⟩ := lost_of_settledAt hp hcall
  obtain ⟨hmoment, hbefore⟩ := hset.registered hp
  have hsame : ∀ {acts'}, first <+: acts' → acts' <+: acts →
      (after acts').schema.shapes.identify owner = (after first).schema.shapes.identify owner :=
    fun hge hle => identify_after hp hge hle fun middle fields hmid hdef =>
      hfixed middle fields hmid (hdef.trans hle)
  refine not_called_of_same_name hq hr hread ?_ hcall hij
  rw [hsame hfirst' (prefix_of_moment hq.called), hsame (hfirst.trans hbefore) hmoment]

end

end Session

end Vetting

import Vetting.Report.Basic

/-!
# What merging does to a report

A report is read by its paths: `messagesAt` gives the messages at the end of
one. Merging appends them path by path (`messagesAt_merge`), and the report
with nothing in it is neutral. The findings of a report at a path are the
messages there (`findings_at`), so a report has no findings exactly when it has
no message at any path.
-/

namespace Vetting

theorem alterEntry_of_not_mem {κ α : Type} [DecidableEq κ] {k : κ} {f : Option α → α} :
    ∀ {l : List (κ × α)}, k ∉ l.map (·.1) → alterEntry k f l = l ++ [(k, f none)]
  | [], _ => rfl
  | (k', a) :: l, h => by
    simp only [List.map_cons, List.mem_cons, not_or] at h
    rw [alterEntry, if_neg (Ne.symm h.1), alterEntry_of_not_mem h.2]
    rfl

theorem alterEntry_ne_nil {κ α : Type} [DecidableEq κ] (k : κ) (f : Option α → α)
    (l : List (κ × α)) : alterEntry k f l ≠ [] := by
  cases l with
  | nil => simp [alterEntry]
  | cons e l => unfold alterEntry; split <;> simp

namespace ReportTree

/-! ## Branches -/

theorem mergeBranches_of_disjoint : ∀ {bs bs' : Branches},
    ((bs ++ bs').map (·.1)).Nodup → mergeBranches bs bs' = bs ++ bs'
  | bs, [], _ => by rw [mergeBranches, List.append_nil]
  | bs, (k, t) :: l, h => by
    have hk : k ∉ bs.map (·.1) := by
      rw [List.map_append, List.map_cons] at h
      intro hmem
      exact (List.nodup_append.1 h).2.2 k hmem k (by simp) rfl
    rw [mergeBranches, alterEntry_of_not_mem hk, mergeBranches_of_disjoint (by simpa using h)]
    simp

theorem lookupEntry_mergeBranches (x : String) : ∀ (bs bs' : Branches), (bs'.map (·.1)).Nodup →
    lookupEntry x (mergeBranches bs bs') = (lookupEntry x bs).merge merge (lookupEntry x bs')
  | bs, [], _ => by
    rw [mergeBranches]
    cases lookupEntry x bs <;> rfl
  | bs, (k, t) :: l, h => by
    rw [List.map_cons, List.nodup_cons] at h
    rw [mergeBranches, lookupEntry_mergeBranches x _ l h.2, lookupEntry_alterEntry]
    by_cases hx : x = k
    · subst hx
      rw [lookupEntry_eq_none.2 h.1, if_pos rfl]
      cases hb : lookupEntry x bs <;> simp [lookupEntry]
    · rw [if_neg hx, lookupEntry, if_neg (Ne.symm hx)]

theorem mergeBranches_eq_nil : ∀ {bs bs' : Branches},
    mergeBranches bs bs' = [] ↔ bs = [] ∧ bs' = []
  | bs, [] => by simp [mergeBranches]
  | bs, (k, t) :: l => by
    rw [mergeBranches, mergeBranches_eq_nil]
    constructor
    · intro h; exact absurd h.1 (alterEntry_ne_nil k _ bs)
    · intro h; exact absurd h.2 (by simp)

/-! ## Paths -/

def node? : ReportTree → List String → Option ReportTree
  | t, [] => some t
  | node _ bs, k :: path => (lookupEntry k bs).bind fun t => t.node? path

def messagesAt (t : ReportTree) (path : List String) : List String :=
  ((t.node? path).map messages).getD []

theorem messagesAt_cons (ms : List String) (bs : Branches) (k : String) (path : List String) :
    (node ms bs).messagesAt (k :: path) =
      ((lookupEntry k bs).map (·.messagesAt path)).getD [] := by
  rw [messagesAt, node?]
  cases lookupEntry k bs <;> rfl

theorem node?_merge : ∀ (path : List String) {a b : ReportTree}, b.Distinct →
    (a.merge b).node? path = (a.node? path).merge merge (b.node? path)
  | [], a, b, _ => by simp [node?]
  | k :: path, node ms bs, node ms' bs', hb => by
    rw [merge, node?, node?, node?, lookupEntry_mergeBranches k bs bs' hb.1]
    cases h : lookupEntry k bs with
    | none => simp
    | some t =>
      cases h' : lookupEntry k bs' with
      | none => simp
      | some u =>
        have hu : u.Distinct := distinct_of_lookupEntry hb.2 h'
        simp only [Option.merge_some_some, Option.bind_some]
        exact node?_merge path hu

theorem messages_merge (a b : ReportTree) : (a.merge b).messages = a.messages ++ b.messages := by
  cases a; cases b; rw [merge]; rfl

theorem messagesAt_merge {a b : ReportTree} (hb : b.Distinct) (path : List String) :
    (a.merge b).messagesAt path = a.messagesAt path ++ b.messagesAt path := by
  unfold messagesAt
  rw [node?_merge path hb]
  cases a.node? path <;> cases b.node? path <;> simp [messages_merge]

end ReportTree

namespace Report

open ReportTree

def messagesAt (r : Report) (path : List String) : List String := r.tree.messagesAt path

theorem messagesAt_merge (r s : Report) (path : List String) :
    (r.merge s).messagesAt path = r.messagesAt path ++ s.messagesAt path :=
  ReportTree.messagesAt_merge s.distinct path

theorem messagesAt_empty (path : List String) : (∅ : Report).messagesAt path = [] := by
  cases path <;> rfl

/-! ## The empty report -/

theorem empty_merge (r : Report) : (∅ : Report).merge r = r := by
  obtain ⟨⟨ms, bs⟩, hd⟩ := r
  apply ext
  show (node [] []).merge (node ms bs) = node ms bs
  have hbs : ((([] : Branches) ++ bs).map (·.1)).Nodup := hd.1
  rw [ReportTree.merge, mergeBranches_of_disjoint hbs]
  rfl

theorem merge_empty (r : Report) : r.merge ∅ = r := by
  obtain ⟨⟨ms, bs⟩, hd⟩ := r
  apply ext
  show (node ms bs).merge (node [] []) = node ms bs
  rw [ReportTree.merge, mergeBranches, List.append_nil]

theorem isEmpty_iff {r : Report} : r.isEmpty = true ↔ r = ∅ := by
  obtain ⟨⟨ms, bs⟩, hd⟩ := r
  constructor
  · intro h
    simp only [isEmpty, ReportTree.isEmpty, ReportTree.messages, ReportTree.branches,
      Bool.and_eq_true, List.isEmpty_iff] at h
    obtain ⟨rfl, rfl⟩ := h
    rfl
  · intro h; rw [h]; rfl

theorem merge_eq_empty {r s : Report} : r.merge s = ∅ ↔ r = ∅ ∧ s = ∅ := by
  constructor
  · intro h
    obtain ⟨⟨ms, bs⟩, hr⟩ := r
    obtain ⟨⟨ms', bs'⟩, hs⟩ := s
    have ht : (node ms bs).merge (node ms' bs') = node [] [] := congrArg tree h
    rw [ReportTree.merge, node.injEq, List.append_eq_nil_iff, mergeBranches_eq_nil] at ht
    obtain ⟨⟨rfl, rfl⟩, rfl, rfl⟩ := ht
    exact ⟨rfl, rfl⟩
  · rintro ⟨rfl, rfl⟩
    exact merge_empty ∅

theorem under_ne_empty (key : String) (r : Report) : r.under key ≠ ∅ := by
  intro h
  have ht : node [] [(key, r.tree)] = node [] [] := congrArg tree h
  rw [node.injEq] at ht
  exact absurd ht.2 (by simp)

/-! ## Merging a list of reports -/

def mergeAll (rs : List Report) : Report := rs.foldl merge ∅

theorem messagesAt_foldl_merge (path : List String) : ∀ (rs : List Report) (r : Report),
    (rs.foldl merge r).messagesAt path = r.messagesAt path ++ rs.flatMap (·.messagesAt path)
  | [], r => by simp
  | s :: rs, r => by
    rw [List.foldl_cons, messagesAt_foldl_merge path rs, messagesAt_merge, List.flatMap_cons,
      List.append_assoc]

theorem messagesAt_mergeAll (rs : List Report) (path : List String) :
    (mergeAll rs).messagesAt path = rs.flatMap (·.messagesAt path) := by
  unfold mergeAll
  rw [messagesAt_foldl_merge, messagesAt_empty, List.nil_append]

theorem foldl_merge_eq_empty : ∀ (rs : List Report) (r : Report),
    rs.foldl merge r = ∅ ↔ r = ∅ ∧ ∀ s ∈ rs, s = ∅
  | [], r => by simp
  | s :: rs, r => by
    rw [List.foldl_cons, foldl_merge_eq_empty rs, merge_eq_empty, List.forall_mem_cons, and_assoc]

theorem mergeAll_eq_empty {rs : List Report} : mergeAll rs = ∅ ↔ ∀ r ∈ rs, r = ∅ := by
  unfold mergeAll; rw [foldl_merge_eq_empty]; simp

/-! ## Findings -/

def textsAt (path : List String) (fs : List Finding) : List String :=
  (fs.filter (·.path = path)).map Finding.text

theorem textsAt_append (path : List String) (fs gs : List Finding) :
    textsAt path (fs ++ gs) = textsAt path fs ++ textsAt path gs := by
  unfold textsAt; rw [List.filter_append, List.map_append]

theorem textsAt_eq_nil {path : List String} {fs : List Finding}
    (h : ∀ f ∈ fs, f.path ≠ path) : textsAt path fs = [] := by
  unfold textsAt
  rw [List.filter_eq_nil_iff.2 (by simpa using h)]
  rfl

theorem textsAt_own (path : List String) (ms : List String) :
    textsAt path (ms.map (⟨path, ·⟩)) = ms := by
  induction ms with
  | nil => rfl
  | cons m ms ih =>
    unfold textsAt at ih ⊢
    simp [ih]

mutual

theorem prefix_of_mem_findingsAt {path : List String} {f : Finding} :
    ∀ {t : ReportTree}, f ∈ findingsAt path t → path <+: f.path
  | node ms bs, h => by
    rw [findingsAt, List.mem_append] at h
    rcases h with h | h
    · obtain ⟨m, _, rfl⟩ := List.mem_map.1 h
      exact List.prefix_rfl
    · obtain ⟨k, _, hk⟩ := prefix_of_mem_findingsOfBranches h
      exact (List.prefix_append path [k]).trans hk

theorem prefix_of_mem_findingsOfBranches {path : List String} {f : Finding} :
    ∀ {bs : Branches}, f ∈ findingsOfBranches path bs →
      ∃ k ∈ bs.map (·.1), path ++ [k] <+: f.path
  | [], h => by simp [findingsOfBranches] at h
  | (k, t) :: l, h => by
    rw [findingsOfBranches, List.mem_append] at h
    rcases h with h | h
    · exact ⟨k, by simp, prefix_of_mem_findingsAt h⟩
    · obtain ⟨k', hk', hf⟩ := prefix_of_mem_findingsOfBranches h
      exact ⟨k', List.mem_cons_of_mem _ hk', hf⟩

end

theorem append_singleton_prefix_ne {k k' : String} {path p q : List String} (hk : k ≠ k')
    (h : path ++ [k] <+: p) : p ≠ path ++ k' :: q := by
  rintro rfl
  obtain ⟨r, hr⟩ := h
  rw [List.append_assoc] at hr
  have := List.append_cancel_left hr
  simp only [List.singleton_append, List.cons.injEq] at this
  exact hk this.1

mutual

theorem textsAt_findingsAt (path : List String) : ∀ (t : ReportTree) (q : List String), t.Distinct →
    textsAt (path ++ q) (findingsAt path t) = t.messagesAt q
  | node ms bs, [], _ => by
    rw [findingsAt, textsAt_append, List.append_nil, textsAt_own, textsAt_eq_nil, List.append_nil]
    · rfl
    · intro f hf
      obtain ⟨k, _, r, hr⟩ := prefix_of_mem_findingsOfBranches hf
      rw [← hr, List.append_assoc]
      intro h
      have := congrArg List.length h
      simp at this
  | node ms bs, k :: q, hd => by
    have hown : textsAt (path ++ k :: q) (ms.map (⟨path, ·⟩)) = [] := by
      apply textsAt_eq_nil
      intro f hf h
      obtain ⟨m, _, rfl⟩ := List.mem_map.1 hf
      simp at h
    rw [findingsAt, textsAt_append, hown, List.nil_append,
      textsAt_findingsOfBranches path bs k q hd.1 hd.2, messagesAt_cons]

theorem textsAt_findingsOfBranches (path : List String) : ∀ (bs : Branches) (k : String)
    (q : List String), (bs.map (·.1)).Nodup → AllDistinct bs →
    textsAt (path ++ k :: q) (findingsOfBranches path bs) =
      ((lookupEntry k bs).map (·.messagesAt q)).getD []
  | [], k, q, _, _ => rfl
  | (k', t) :: l, k, q, hn, hd => by
    rw [List.map_cons, List.nodup_cons] at hn
    rw [findingsOfBranches, textsAt_append, lookupEntry]
    by_cases hk : k' = k
    · subst hk
      -- the key is not in the rest, so the rest has nothing to say there
      have hrest : textsAt (path ++ k' :: q) (findingsOfBranches path l) = [] := by
        rw [textsAt_findingsOfBranches path l k' q hn.2 hd.2, lookupEntry_eq_none.2 hn.1]
        rfl
      have hhere := textsAt_findingsAt (path ++ [k']) t q hd.1
      rw [List.append_assoc, List.singleton_append] at hhere
      rw [hrest, hhere, if_pos rfl, List.append_nil]
      rfl
    · have hhere : textsAt (path ++ k :: q) (findingsAt (path ++ [k']) t) = [] := by
        apply textsAt_eq_nil
        intro f hf
        exact append_singleton_prefix_ne hk (prefix_of_mem_findingsAt hf)
      rw [hhere, List.nil_append, if_neg hk, textsAt_findingsOfBranches path l k q hn.2 hd.2]

end

theorem findings_at (r : Report) (path : List String) :
    textsAt path r.findings = r.messagesAt path :=
  textsAt_findingsAt [] r.tree path r.distinct

theorem findings_eq_nil_iff {r : Report} : r.findings = [] ↔ ∀ path, r.messagesAt path = [] := by
  constructor
  · intro h path
    rw [← findings_at, h]
    rfl
  · intro h
    apply List.eq_nil_iff_forall_not_mem.2
    intro f hf
    have hm : f.text ∈ textsAt f.path r.findings :=
      List.mem_map.2 ⟨f, List.mem_filter.2 ⟨hf, by simp⟩, rfl⟩
    rw [findings_at, h] at hm
    cases hm

theorem findings_message (m : String) : (message m).findings = [⟨[], m⟩] := rfl

theorem findings_under_eq_nil {key : String} {r : Report} :
    (r.under key).findings = [] ↔ r.findings = [] := by
  rw [findings_eq_nil_iff, findings_eq_nil_iff]
  have hunder : ∀ path, (r.under key).messagesAt (key :: path) = r.messagesAt path := by
    intro path
    show (node [] [(key, r.tree)]).messagesAt (key :: path) = r.tree.messagesAt path
    rw [messagesAt_cons, lookupEntry, if_pos rfl]
    rfl
  constructor
  · intro h path
    rw [← hunder, h]
  · intro h path
    cases path with
    | nil => rfl
    | cons k path =>
      by_cases hk : key = k
      · subst hk
        rw [hunder, h]
      · show (node [] [(key, r.tree)]).messagesAt (k :: path) = []
        rw [messagesAt_cons, lookupEntry, if_neg hk]
        rfl

theorem findings_merge_eq_nil {r s : Report} :
    (r.merge s).findings = [] ↔ r.findings = [] ∧ s.findings = [] := by
  simp only [findings_eq_nil_iff, messagesAt_merge, List.append_eq_nil_iff, forall_and]

theorem findings_mergeAll_eq_nil {rs : List Report} :
    (mergeAll rs).findings = [] ↔ ∀ r ∈ rs, r.findings = [] := by
  simp only [findings_eq_nil_iff, messagesAt_mergeAll, List.flatMap_eq_nil_iff]
  exact ⟨fun h r hr path => h path r hr, fun h path r hr => h r hr path⟩

end Report

end Vetting

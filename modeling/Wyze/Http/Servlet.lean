/-
**`ServletDispatch`.**

Exact registrations are kept in a map, patterns in a vector in which adding erases the first entry with
the same pattern and appends, a default servlet beside them. A servlet is any value, the null pointer
too; `fnmatch` is a parameter.

* `last_snoc`: how the last call of a kind moves when a history grows.
* `Tracks.next`: the three tables are what the history says, the vector in the order of the last
  registrations.
* `getMatchedServlet_iff`: what is dispatched, from the history.
* `dispatch_spec`: this for every history, and each pattern once in the vector.
-/
import Mathlib.Data.List.Basic
import Mathlib.Data.List.Pairwise

namespace Wyze.Http

/-! ### Histories -/

namespace History

variable {ℓ : Type*}

/-- The call `c` was made at `k`, and no later call hides it. -/
def Last (calls : List ℓ) (k : Nat) (c : ℓ) (hides : ℓ → Prop) : Prop :=
  calls[k]? = some c ∧ ∀ j later, k < j → calls[j]? = some later → ¬ hides later

theorem not_last_nil {k : Nat} {c : ℓ} {hides : ℓ → Prop} : ¬ Last [] k c hides := by
  rintro ⟨⟨⟩, _⟩

theorem Last.less {calls : List ℓ} {k : Nat} {c : ℓ} {hides : ℓ → Prop}
    (last : Last calls k c hides) : k < calls.length := (List.getElem?_eq_some_iff.mp last.1).1

/-- **The last call of a kind** is the new one, or the earlier one if the new one does not hide it. -/
theorem last_snoc {calls : List ℓ} {new : ℓ} {k : Nat} {c : ℓ} {hides : ℓ → Prop} :
    Last (calls ++ [new]) k c hides ↔
      (k = calls.length ∧ c = new) ∨ (Last calls k c hides ∧ ¬ hides new) := by
  constructor
  · rintro ⟨called, last⟩
    have less := (List.getElem?_eq_some_iff.mp called).1
    rw [List.length_append, List.length_singleton] at less
    rcases Nat.lt_or_eq_of_le (Nat.le_of_lt_succ less) with earlier | rfl
    · rw [List.getElem?_append_left earlier] at called
      refine Or.inr ⟨⟨called, fun j later after there => ?_⟩, ?_⟩
      · refine last j later after ?_
        rwa [List.getElem?_append_left (List.getElem?_eq_some_iff.mp there).1]
      · exact last calls.length new earlier List.getElem?_concat_length
    · rw [List.getElem?_concat_length] at called
      exact Or.inl ⟨rfl, (Option.some.inj called).symm⟩
  · rintro (⟨rfl, rfl⟩ | ⟨⟨called, last⟩, shown⟩)
    · refine ⟨List.getElem?_concat_length, fun j later after there => ?_⟩
      have less := (List.getElem?_eq_some_iff.mp there).1
      rw [List.length_append, List.length_singleton] at less
      exact absurd after (Nat.not_lt_of_le (Nat.le_of_lt_succ less))
    · have earlier := (List.getElem?_eq_some_iff.mp called).1
      refine ⟨by rwa [List.getElem?_append_left earlier], fun j later after there => ?_⟩
      have less := (List.getElem?_eq_some_iff.mp there).1
      rw [List.length_append, List.length_singleton] at less
      rcases Nat.lt_or_eq_of_le (Nat.le_of_lt_succ less) with before | rfl
      · rw [List.getElem?_append_left before] at there
        exact last j later after there
      · rw [List.getElem?_concat_length] at there
        exact Option.some.inj there ▸ shown

/-- Two last calls that hide each other are the same. -/
theorem Last.unique {calls : List ℓ} {k k' : Nat} {c c' : ℓ} {hides : ℓ → Prop}
    (last : Last calls k c hides) (last' : Last calls k' c' hides) (here : hides c)
    (there : hides c') : k = k' ∧ c = c' := by
  rcases Nat.lt_trichotomy k k' with less | same | more
  · exact absurd there (last.2 k' c' less last'.1)
  · subst same
    exact ⟨rfl, Option.some.inj (last.1.symm.trans last'.1)⟩
  · exact absurd here (last'.2 k c more last.1)

end History

/-! ### The dispatcher -/

/-- `m_datas`, `m_globs` and `m_default`. -/
structure ServletDispatch (σ : Type) where
  datas : String → Option σ
  globs : List (String × σ)
  default : σ

namespace ServletDispatch

variable {σ : Type}

inductive Call (σ : Type) where
  | addServlet (uri : String) (slt : σ)
  | delServlet (uri : String)
  | addGlobServlet (uri : String) (slt : σ)
  | delGlobServlet (uri : String)
  | setDefault (slt : σ)

/-- The constructor; `notFound` is the `NotFoundServer` it makes. -/
def new (notFound : σ) : ServletDispatch σ := { datas := fun _ => none, globs := [], default := notFound }

def addServlet (dispatch : ServletDispatch σ) (uri : String) (slt : σ) : ServletDispatch σ :=
  { dispatch with datas := fun other => if other = uri then some slt else dispatch.datas other }

def delServlet (dispatch : ServletDispatch σ) (uri : String) : ServletDispatch σ :=
  { dispatch with datas := fun other => if other = uri then none else dispatch.datas other }

/-- The loop that `addGlobServlet` and `delGlobServlet` share: the first entry with the pattern goes. -/
def eraseGlob (globs : List (String × σ)) (uri : String) : List (String × σ) :=
  globs.eraseP fun it => it.1 = uri

def addGlobServlet (dispatch : ServletDispatch σ) (uri : String) (slt : σ) : ServletDispatch σ :=
  { dispatch with globs := eraseGlob dispatch.globs uri ++ [(uri, slt)] }

def delGlobServlet (dispatch : ServletDispatch σ) (uri : String) : ServletDispatch σ :=
  { dispatch with globs := eraseGlob dispatch.globs uri }

def setDefault (dispatch : ServletDispatch σ) (slt : σ) : ServletDispatch σ :=
  { dispatch with default := slt }

/-- `getMatchedServlet`; `fnmatch` is true where the library's returns 0. -/
def getMatchedServlet (fnmatch : String → String → Bool) (dispatch : ServletDispatch σ)
    (uri : String) : σ :=
  match dispatch.datas uri with
  | some slt => slt
  | none =>
    match dispatch.globs.find? fun it => fnmatch it.1 uri with
    | some it => it.2
    | none => dispatch.default

def perform (dispatch : ServletDispatch σ) : Call σ → ServletDispatch σ
  | .addServlet uri slt => dispatch.addServlet uri slt
  | .delServlet uri => dispatch.delServlet uri
  | .addGlobServlet uri slt => dispatch.addGlobServlet uri slt
  | .delGlobServlet uri => dispatch.delGlobServlet uri
  | .setDefault slt => dispatch.setDefault slt

/-- A history of calls on a new dispatcher. -/
def run (notFound : σ) (calls : List (Call σ)) : ServletDispatch σ := calls.foldl perform (new notFound)

/-! ### What a history says -/

namespace Call

/-- The call registers the uri, or takes its registration away. -/
def TouchesExact (uri : String) : Call σ → Prop
  | .addServlet other _ | .delServlet other => other = uri
  | _ => False

/-- The same for a pattern. -/
def TouchesGlob (uri : String) : Call σ → Prop
  | .addGlobServlet other _ | .delGlobServlet other => other = uri
  | _ => False

def SetsDefault : Call σ → Prop
  | .setDefault _ => True
  | _ => False

end Call

open History

/-- The most recent registration of the uri is live and has that servlet. -/
def LiveExact (calls : List (Call σ)) (uri : String) (slt : σ) : Prop :=
  ∃ k, Last calls k (.addServlet uri slt) (Call.TouchesExact uri)

/-- The latest registration of the pattern is live, was made at `k` and has that servlet. -/
def LiveGlob (calls : List (Call σ)) (k : Nat) (uri : String) (slt : σ) : Prop :=
  Last calls k (.addGlobServlet uri slt) (Call.TouchesGlob uri)

/-- The servlet of the latest `setDefault`, or the constructor's. -/
def CurrentDefault (notFound : σ) (calls : List (Call σ)) (slt : σ) : Prop :=
  (∃ k, Last calls k (.setDefault slt) Call.SetsDefault) ∨
    ((∀ c ∈ calls, ¬ c.SetsDefault) ∧ slt = notFound)

/-- The servlet that a history gives to a uri: that of its live exact registration, or that of the live
matching pattern whose latest registration is oldest, or the default. -/
inductive Dispatched (fnmatch : String → String → Bool) (notFound : σ) (calls : List (Call σ))
    (uri : String) (slt : σ) : Prop
  | exact : LiveExact calls uri slt → Dispatched fnmatch notFound calls uri slt
  | glob (k : Nat) (pattern : String) : (∀ other, ¬ LiveExact calls uri other) →
      LiveGlob calls k pattern slt → fnmatch pattern uri = true →
      (∀ k' pattern' other, LiveGlob calls k' pattern' other → fnmatch pattern' uri = true → k ≤ k') →
      Dispatched fnmatch notFound calls uri slt
  | default : (∀ other, ¬ LiveExact calls uri other) →
      (∀ k pattern other, LiveGlob calls k pattern other → fnmatch pattern uri = false) →
      CurrentDefault notFound calls slt → Dispatched fnmatch notFound calls uri slt

variable {notFound : σ} {calls : List (Call σ)} {dispatch : ServletDispatch σ}

theorem liveExact_snoc {new : Call σ} {uri : String} {slt : σ} :
    LiveExact (calls ++ [new]) uri slt ↔
      .addServlet uri slt = new ∨ (LiveExact calls uri slt ∧ ¬ new.TouchesExact uri) := by
  simp only [LiveExact, last_snoc, exists_or, exists_and_right, exists_eq, true_and]

theorem currentDefault_snoc {new : Call σ} {slt : σ} :
    CurrentDefault notFound (calls ++ [new]) slt ↔
      .setDefault slt = new ∨ (CurrentDefault notFound calls slt ∧ ¬ new.SetsDefault) := by
  simp only [CurrentDefault, last_snoc, exists_or, exists_and_right, exists_eq, true_and,
    List.forall_mem_append, List.forall_mem_singleton]
  tauto

/-! ### The tables -/

/-- The map and the default are what the history says, and the vector has the live patterns, `stamped`
with the times of their latest registrations, in the order of these. -/
structure Tracks (notFound : σ) (calls : List (Call σ)) (dispatch : ServletDispatch σ)
    (stamped : List (Nat × String × σ)) : Prop where
  datas : ∀ uri slt, dispatch.datas uri = some slt ↔ LiveExact calls uri slt
  globs : dispatch.globs = stamped.map (·.2)
  live : ∀ k uri slt, (k, uri, slt) ∈ stamped ↔ LiveGlob calls k uri slt
  ordered : stamped.Pairwise fun first second => first.1 < second.1
  default : ∀ slt, CurrentDefault notFound calls slt ↔ slt = dispatch.default

theorem Tracks.new : Tracks notFound [] (new notFound) [] where
  datas uri slt := iff_of_false (by rintro ⟨⟩) (by rintro ⟨_, last⟩; exact not_last_nil last)
  globs := rfl
  live k uri slt := iff_of_false (by rintro ⟨⟩) not_last_nil
  ordered := .nil
  default slt := by
    constructor
    · rintro (⟨_, last⟩ | ⟨_, same⟩)
      · exact absurd last not_last_nil
      · exact same
    · exact fun same => Or.inr ⟨by rintro _ ⟨⟩, same⟩

/-- Each pattern is live once. -/
theorem Tracks.distinct {stamped : List (Nat × String × σ)}
    (tracks : Tracks notFound calls dispatch stamped) :
    stamped.Pairwise fun first second => first.2.1 ≠ second.2.1 := by
  refine tracks.ordered.imp_of_mem fun {first second} mem mem' less same => ?_
  have last := (tracks.live first.1 first.2.1 first.2.2).mp mem
  have last' := (tracks.live second.1 second.2.1 second.2.2).mp mem'
  rw [← same] at last'
  exact Nat.ne_of_lt less (last.unique last' rfl rfl).1

/-- Where keys are distinct, erasing the first entry with a key erases all. -/
theorem eraseP_eq_filter {α κ : Type} [DecidableEq κ] {key : α → κ} {entries : List α}
    (distinct : entries.Pairwise fun first second => key first ≠ key second) (k : κ) :
    entries.eraseP (fun entry => key entry = k) = entries.filter fun entry => key entry ≠ k := by
  induction entries with
  | nil => rfl
  | cons entry entries ih =>
      obtain ⟨others, later⟩ := List.pairwise_cons.mp distinct
      by_cases here : key entry = k
      · rw [List.eraseP_cons_of_pos (by simpa using here), List.filter_cons_of_neg (by simpa using here)]
        refine (List.filter_eq_self.mpr fun other member => ?_).symm
        simpa [here] using (others other member).symm
      · rw [List.eraseP_cons_of_neg (by simpa using here), List.filter_cons_of_pos (by simpa using here),
          ih later]

/-- Erasing a pattern erases it altogether. -/
theorem Tracks.eraseGlob_eq {stamped : List (Nat × String × σ)}
    (tracks : Tracks notFound calls dispatch stamped) (uri : String) :
    eraseGlob dispatch.globs uri = (stamped.filter fun entry => entry.2.1 ≠ uri).map (·.2) := by
  rw [eraseGlob, tracks.globs, List.eraseP_map]
  congr 1
  exact eraseP_eq_filter tracks.distinct uri

/-- A call that is not about patterns leaves the live ones. -/
theorem liveGlob_snoc_other {new : Call σ} (other : ∀ uri, ¬ new.TouchesGlob uri) {k : Nat}
    {uri : String} {slt : σ} : LiveGlob (calls ++ [new]) k uri slt ↔ LiveGlob calls k uri slt := by
  rw [LiveGlob, last_snoc]
  constructor
  · rintro (⟨_, rfl⟩ | ⟨last, _⟩)
    · exact absurd rfl (other uri)
    · exact last
  · exact fun last => Or.inr ⟨last, other uri⟩

/-- A call that does not register or unregister a uri leaves the live registrations. -/
theorem liveExact_snoc_other {new : Call σ} (other : ∀ uri, ¬ new.TouchesExact uri) {uri : String}
    {slt : σ} : LiveExact (calls ++ [new]) uri slt ↔ LiveExact calls uri slt := by
  rw [liveExact_snoc]
  constructor
  · rintro (rfl | ⟨live, _⟩)
    · exact absurd rfl (other uri)
    · exact live
  · exact fun live => Or.inr ⟨live, other uri⟩

/-- A call that does not set the default leaves it. -/
theorem currentDefault_snoc_other {new : Call σ} (other : ¬ new.SetsDefault) {slt : σ} :
    CurrentDefault notFound (calls ++ [new]) slt ↔ CurrentDefault notFound calls slt := by
  rw [currentDefault_snoc]
  constructor
  · rintro (rfl | ⟨current, _⟩)
    · exact absurd trivial other
    · exact current
  · exact fun current => Or.inr ⟨current, other⟩

section Next

variable {stamped : List (Nat × String × σ)}

/-- A call that is about uris alone. -/
theorem Tracks.exact (tracks : Tracks notFound calls dispatch stamped) {new : Call σ}
    {next : ServletDispatch σ} (globs : next.globs = dispatch.globs)
    (default : next.default = dispatch.default) (noGlob : ∀ uri, ¬ new.TouchesGlob uri)
    (noDefault : ¬ new.SetsDefault)
    (datas : ∀ uri servlet, next.datas uri = some servlet ↔ LiveExact (calls ++ [new]) uri servlet) :
    Tracks notFound (calls ++ [new]) next stamped where
  datas := datas
  globs := globs.trans tracks.globs
  live k pattern servlet := by
    rw [liveGlob_snoc_other noGlob]
    exact tracks.live k pattern servlet
  ordered := tracks.ordered
  default servlet := by
    rw [currentDefault_snoc_other noDefault, default]
    exact tracks.default servlet

theorem Tracks.addServlet (tracks : Tracks notFound calls dispatch stamped) (uri : String) (slt : σ) :
    Tracks notFound (calls ++ [.addServlet uri slt]) (dispatch.addServlet uri slt) stamped := by
  refine tracks.exact rfl rfl (fun _ => id) id fun other servlet => ?_
  rw [liveExact_snoc, ← tracks.datas, ServletDispatch.addServlet]
  by_cases same : other = uri
  · simp [same, Call.TouchesExact, eq_comm]
  · simp [same, Call.TouchesExact, Ne.symm same]

theorem Tracks.delServlet (tracks : Tracks notFound calls dispatch stamped) (uri : String) :
    Tracks notFound (calls ++ [.delServlet uri]) (dispatch.delServlet uri) stamped := by
  refine tracks.exact rfl rfl (fun _ => id) id fun other servlet => ?_
  rw [liveExact_snoc, ← tracks.datas, ServletDispatch.delServlet]
  by_cases same : other = uri
  · simp [same, Call.TouchesExact]
  · simp [same, Call.TouchesExact, Ne.symm same]

theorem Tracks.setDefault (tracks : Tracks notFound calls dispatch stamped) (slt : σ) :
    Tracks notFound (calls ++ [.setDefault slt]) (dispatch.setDefault slt) stamped where
  datas uri servlet := by
    rw [liveExact_snoc_other fun _ => id]
    exact tracks.datas uri servlet
  globs := tracks.globs
  live k pattern servlet := by
    rw [liveGlob_snoc_other fun _ => id]
    exact tracks.live k pattern servlet
  ordered := tracks.ordered
  default servlet := by
    rw [currentDefault_snoc]
    simp [Call.SetsDefault, ServletDispatch.setDefault]

/-- The entries that a pattern's erasure leaves are the live ones of the other patterns. -/
theorem Tracks.mem_filter (tracks : Tracks notFound calls dispatch stamped) (uri : String) (k : Nat)
    (pattern : String) (servlet : σ) :
    (k, pattern, servlet) ∈ stamped.filter (fun entry => entry.2.1 ≠ uri) ↔
      LiveGlob calls k pattern servlet ∧ uri ≠ pattern := by
  rw [List.mem_filter, tracks.live]
  exact and_congr_right fun _ => decide_eq_true_iff.trans ne_comm

theorem Tracks.delGlobServlet (tracks : Tracks notFound calls dispatch stamped) (uri : String) :
    Tracks notFound (calls ++ [.delGlobServlet uri]) (dispatch.delGlobServlet uri)
      (stamped.filter fun entry => entry.2.1 ≠ uri) where
  datas other servlet := by
    rw [liveExact_snoc_other fun _ => id]
    exact tracks.datas other servlet
  globs := tracks.eraseGlob_eq uri
  live k pattern servlet := by
    rw [tracks.mem_filter, LiveGlob, LiveGlob, last_snoc]
    simp [Call.TouchesGlob]
  ordered := tracks.ordered.filter _
  default servlet := by
    rw [currentDefault_snoc_other id]
    exact tracks.default servlet

theorem Tracks.addGlobServlet (tracks : Tracks notFound calls dispatch stamped) (uri : String) (slt : σ) :
    Tracks notFound (calls ++ [.addGlobServlet uri slt]) (dispatch.addGlobServlet uri slt)
      (stamped.filter (fun entry => entry.2.1 ≠ uri) ++ [(calls.length, uri, slt)]) where
  datas other servlet := by
    rw [liveExact_snoc_other fun _ => id]
    exact tracks.datas other servlet
  globs := by
    rw [ServletDispatch.addGlobServlet, tracks.eraseGlob_eq uri, List.map_append]
    rfl
  live k pattern servlet := by
    rw [List.mem_append, tracks.mem_filter, List.mem_singleton, LiveGlob, LiveGlob, last_snoc, or_comm]
    simp [Call.TouchesGlob]
  ordered := by
    refine List.pairwise_append.mpr ⟨tracks.ordered.filter _, List.pairwise_singleton _ _, ?_⟩
    rintro ⟨k, pattern, servlet⟩ member _ new
    cases List.mem_singleton.mp new
    exact ((tracks.mem_filter uri k pattern servlet).mp member).1.less
  default servlet := by
    rw [currentDefault_snoc_other id]
    exact tracks.default servlet

/-- **A call** keeps the tables. -/
theorem Tracks.next (tracks : Tracks notFound calls dispatch stamped) (new : Call σ) :
    ∃ stamped', Tracks notFound (calls ++ [new]) (dispatch.perform new) stamped' := by
  cases new with
  | addServlet uri slt => exact ⟨_, tracks.addServlet uri slt⟩
  | delServlet uri => exact ⟨_, tracks.delServlet uri⟩
  | addGlobServlet uri slt => exact ⟨_, tracks.addGlobServlet uri slt⟩
  | delGlobServlet uri => exact ⟨_, tracks.delGlobServlet uri⟩
  | setDefault slt => exact ⟨_, tracks.setDefault slt⟩

/-- **A history** fills the tables. -/
theorem Tracks.foldl (tracks : Tracks notFound calls dispatch stamped) (more : List (Call σ)) :
    ∃ stamped', Tracks notFound (calls ++ more) (more.foldl perform dispatch) stamped' := by
  induction more generalizing calls dispatch stamped with
  | nil => exact ⟨stamped, by rwa [List.append_nil]⟩
  | cons new more ih =>
      obtain ⟨stamped', tracks'⟩ := tracks.next new
      rw [List.append_cons, List.foldl_cons]
      exact ih tracks'

end Next

theorem run_tracks (notFound : σ) (calls : List (Call σ)) :
    ∃ stamped, Tracks notFound calls (run notFound calls) stamped := Tracks.new.foldl calls

/-! ### Dispatching -/

/-- The first matching entry of the vector is the matching pattern whose latest registration is oldest. -/
theorem Tracks.find_eq_some {stamped : List (Nat × String × σ)}
    (tracks : Tracks notFound calls dispatch stamped) (matched : String → Bool) {it : String × σ}
    (found : dispatch.globs.find? (fun it => matched it.1) = some it) :
    ∃ k, LiveGlob calls k it.1 it.2 ∧ matched it.1 = true ∧
      ∀ k' pattern other, LiveGlob calls k' pattern other → matched pattern = true → k ≤ k' := by
  rw [tracks.globs, List.find?_map, Option.map_eq_some_iff] at found
  obtain ⟨⟨k, pattern, servlet⟩, found, rfl⟩ := found
  obtain ⟨holds, front, back, split, skipped⟩ := List.find?_eq_some_iff_append.mp found
  have ordered := tracks.ordered
  rw [split] at ordered
  refine ⟨k, (tracks.live _ _ _).mp (by simp [split]), holds, fun k' pattern' other live matches_ => ?_⟩
  have member := (tracks.live k' pattern' other).mpr live
  rw [split, List.mem_append, List.mem_cons] at member
  rcases member with before | same | after
  · have skips := skipped _ before
    rw [Function.comp_apply, Bool.not_eq_true'] at skips
    exact absurd (skips.symm.trans matches_) (by decide)
  · cases same
    exact Nat.le_refl _
  · exact Nat.le_of_lt ((List.pairwise_cons.mp (List.pairwise_append.mp ordered).2.1).1 _ after)

theorem Tracks.find_eq_none {stamped : List (Nat × String × σ)}
    (tracks : Tracks notFound calls dispatch stamped) (matched : String → Bool)
    (absent : dispatch.globs.find? (fun it => matched it.1) = none) (k : Nat) (pattern : String)
    (other : σ) (live : LiveGlob calls k pattern other) : matched pattern = false := by
  rw [tracks.globs] at absent
  have member := List.mem_map_of_mem (f := (·.2)) ((tracks.live k pattern other).mpr live)
  exact Bool.eq_false_iff.mpr (List.find?_eq_none.mp absent _ member)

/-- **What is dispatched.** -/
theorem Tracks.getMatchedServlet_iff {stamped : List (Nat × String × σ)}
    (tracks : Tracks notFound calls dispatch stamped) (fnmatch : String → String → Bool)
    (uri : String) (slt : σ) :
    dispatch.getMatchedServlet fnmatch uri = slt ↔ Dispatched fnmatch notFound calls uri slt := by
  unfold getMatchedServlet
  cases exact : dispatch.datas uri with
  | some servlet =>
      have live := (tracks.datas uri servlet).mp exact
      constructor
      · rintro rfl
        exact .exact live
      · rintro (live' | ⟨_, _, dead, _⟩ | ⟨dead, _⟩)
        · exact Option.some.inj (exact.symm.trans ((tracks.datas uri slt).mpr live'))
        · exact absurd live (dead servlet)
        · exact absurd live (dead servlet)
  | none =>
      have dead : ∀ other, ¬ LiveExact calls uri other := fun other live => by
        rw [(tracks.datas uri other).mpr live] at exact
        cases exact
      dsimp only
      cases found : dispatch.globs.find? fun it => fnmatch it.1 uri with
      | some it =>
          obtain ⟨k, live, matches_, oldest⟩ := tracks.find_eq_some (fnmatch · uri) found
          constructor
          · rintro rfl
            exact .glob k it.1 dead live matches_ oldest
          · rintro (live' | ⟨k', pattern, _, live', matches', oldest'⟩ | ⟨_, misses, _⟩)
            · exact absurd live' (dead slt)
            · obtain rfl := Nat.le_antisymm (oldest k' pattern slt live' matches')
                (oldest' k it.1 it.2 live matches_)
              cases Option.some.inj (live.1.symm.trans live'.1)
              rfl
            · exact absurd (matches_.symm.trans (misses k it.1 it.2 live)) (by decide)
      | none =>
          have misses := tracks.find_eq_none (fnmatch · uri) found
          constructor
          · rintro rfl
            exact .default dead misses ((tracks.default _).mpr rfl)
          · rintro (live | ⟨k, pattern, _, live, matches_, _⟩ | ⟨_, _, current⟩)
            · exact absurd live (dead slt)
            · exact absurd (matches_.symm.trans (misses k pattern slt live)) (by decide)
            · exact ((tracks.default slt).mp current).symm

/-- **The dispatcher is its history.** After any calls a uri gets the servlet of its most recent live
registration, or that of the live matching pattern whose latest registration is oldest, or the current
default; each pattern is in the vector once, and none that has been deleted. -/
theorem dispatch_spec (fnmatch : String → String → Bool) (notFound : σ) (calls : List (Call σ)) :
    (∀ uri slt, (run notFound calls).getMatchedServlet fnmatch uri = slt ↔
      Dispatched fnmatch notFound calls uri slt) ∧
    ((run notFound calls).globs.map (·.1)).Nodup ∧
    ∀ p, p ∉ ((run notFound calls).delGlobServlet p).globs.map (·.1) := by
  obtain ⟨stamped, tracks⟩ := run_tracks notFound calls
  refine ⟨fun uri slt => tracks.getMatchedServlet_iff fnmatch uri slt, ?_, fun p => ?_⟩
  · rw [tracks.globs, List.map_map]
    exact List.pairwise_map.mpr tracks.distinct
  · rw [(tracks.delGlobServlet p).globs, List.map_map]
    simp

/-- Two patterns match, and the one registered again comes last. -/
example : (run "404" [.addGlobServlet "/a*" "first", .addGlobServlet "/*" "second",
    .addGlobServlet "/a*" "third"]).getMatchedServlet (fun _ _ => true) "/ab" = "second" := by
  decide

end ServletDispatch

end Wyze.Http

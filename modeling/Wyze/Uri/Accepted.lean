/-
**The path of an accepted URI.**

`save_path` is the last of several actions on the transitions that leave an authority, and its mark may
be one that another action has set or cleared.

* `pathRead_step`: one byte keeps the path in the grammar.
* `path_of_create`: **whatever the text, the path of what `Create` returns is in the grammar.**
-/
import Wyze.Uri.Parser

namespace Wyze

open Http.Message (isXdigit)

/-! ### What the transitions do to the path -/

/-- What is behind the mark in a path that will be saved. -/
def UriState.Marked : UriState → List UInt8 → Prop
  | .inside .segments, text => Encoded isPathByte text
  | .percent .segments, text => ∃ front, text = front ++ [37] ∧ Encoded isPathByte front
  | .hex .segments, text =>
    ∃ front high, text = front ++ [37, high] ∧ isXdigit high = true ∧ Encoded isPathByte front
  | _, _ => True

/-- **The path is in the grammar**, the one that is saved and the one that is being read. -/
structure PathRead (config : UriState × UriMemory) : Prop where
  saved : Encoded isPathByte config.2.uri.path
  marked : ∀ text, config.2.mark = some text → config.1.Marked text

/-- Actions that leave a path of the grammar. -/
def Harmless (actions : List UriAction) : Prop :=
  ∀ memory : UriMemory, Encoded isPathByte memory.uri.path →
    Encoded isPathByte (actions.foldl UriMemory.perform memory).uri.path

/-- A transition to a place where the invariant holds, whatever the mark is. -/
def Settles (result : List UriAction × UriState) (byte : UInt8) : Prop :=
  ∀ memory : UriMemory, Encoded isPathByte memory.uri.path →
    PathRead (result.2, (result.1.foldl UriMemory.perform memory).consume byte)

theorem path_save (memory : UriMemory) {store : List UInt8 → Uri}
    (same : ∀ text, (store text).path = memory.uri.path) :
    (memory.save store).uri.path = memory.uri.path := by
  rw [UriMemory.save]
  cases memory.mark with
  | none => rfl
  | some text => exact same text

/-- Only `save_path` sets the path. -/
theorem path_perform (memory : UriMemory) {action : UriAction} (other : action ≠ .savePath) :
    (memory.perform action).uri.path = memory.uri.path := by
  cases action with
  | marku => rfl
  | markh => rfl
  | saveScheme => exact path_save memory fun _ => rfl
  | savePort =>
      refine path_save memory fun text => ?_
      split <;> rfl
  | saveUserinfo =>
      rw [UriMemory.perform]
      cases memory.mark <;> rfl
  | saveHost =>
      rw [UriMemory.perform]
      cases memory.mark <;> rfl
  | savePath => exact absurd rfl other
  | saveQuery => exact path_save memory fun _ => rfl
  | saveFragment => exact path_save memory fun _ => rfl

theorem harmless_of_not_mem {actions : List UriAction} (other : .savePath ∉ actions) :
    Harmless actions := by
  induction actions with
  | nil => exact fun _ saved => saved
  | cons action actions ih =>
      simp only [List.mem_cons, not_or] at other
      intro memory saved
      refine ih other.2 _ ?_
      rw [path_perform memory (Ne.symm other.1)]
      exact saved

/-- What stands on the transitions that leave an authority. -/
def authorityEnds : List (List UriAction) :=
  [[.markh, .saveHost], [.saveHost], [.markh, .savePort], [.savePort]]

/-- **At the end of an authority the path is empty**, or nothing is saved. -/
theorem harmless_emptyPath {leave : List UriAction} (mem : leave ∈ authorityEnds) :
    Harmless (embed leave [.markh, .savePath]) := by
  intro memory saved
  simp only [authorityEnds, List.mem_cons, List.not_mem_nil, or_false] at mem
  rcases mem with rfl | rfl | rfl | rfl
  · simp [embed, UriMemory.perform, UriMemory.save, Encoded.nil]
  · simp [embed, UriMemory.perform, UriMemory.save, Encoded.nil]
  · simp [embed, UriMemory.perform, UriMemory.save, saved]
  · simp [embed, UriMemory.perform, UriMemory.save, Encoded.nil]

theorem settles_of_harmless {actions : List UriAction} {state : UriState} {byte : UInt8}
    (harmless : Harmless actions) (apart : ∀ text, state.Marked text) :
    Settles (actions, state) byte :=
  fun memory saved => ⟨harmless memory saved, fun text _ => apart text⟩

theorem settles_goOn {may : UInt8 → Bool} {enter : List UriAction} {place : UriPlace}
    {byte : UInt8} {otherwise : List UriAction × UriState} (harmless : Harmless enter)
    (apart : place ≠ .segments) (settles : Settles otherwise byte) :
    Settles (goOn may enter place byte otherwise) byte := by
  rw [goOn]
  split
  · exact settles_of_harmless harmless fun _ => by cases place <;> trivial
  · split
    · exact settles_of_harmless harmless fun _ => by cases place <;> trivial
    · exact settles

theorem settles_ending {leave : List UriAction} (harmless : Harmless leave) (byte : UInt8) :
    Settles (ending leave byte) byte := by
  rw [ending]
  split
  · exact settles_of_harmless harmless fun _ => trivial
  · split
    · exact settles_of_harmless harmless fun _ => trivial
    · exact settles_of_harmless (harmless_of_not_mem (by decide)) fun _ => trivial

/-- A saved path begins with the slash that ends the authority. -/
theorem settles_slash {leave : List UriAction} (mem : leave ∈ authorityEnds) :
    Settles (embed leave [.markh], .inside .segments) 47 := by
  intro memory saved
  have slash : Encoded isPathByte [47] := Encoded.byte (by decide) Encoded.nil
  simp only [authorityEnds, List.mem_cons, List.not_mem_nil, or_false] at mem
  refine ⟨?_, fun text isText => ?_⟩
  · refine harmless_of_not_mem ?_ memory saved
    rcases mem with rfl | rfl | rfl | rfl <;> decide
  · show Encoded isPathByte text
    rcases mem with rfl | rfl | rfl | rfl
    all_goals
      simp [embed, UriMemory.perform, UriMemory.save, UriMemory.consume] at isText
    all_goals
      rw [← isText]
      exact slash

theorem settles_leaveAuthority {leave : List UriAction} (mem : leave ∈ authorityEnds)
    (absolute : Bool) (byte : UInt8) : Settles (leaveAuthority absolute leave byte) byte := by
  have plain : Harmless leave := by
    refine harmless_of_not_mem ?_
    simp only [authorityEnds, List.mem_cons, List.not_mem_nil, or_false] at mem
    rcases mem with rfl | rfl | rfl | rfl <;> decide
  rw [leaveAuthority]
  split
  · rename_i slash
    subst slash
    split
    · exact settles_slash mem
    · exact settles_of_harmless plain fun _ => trivial
  · split
    · exact settles_ending (harmless_emptyPath mem) byte
    · exact settles_ending plain byte

theorem settles_leaveHost {enter : List UriAction} (marks : enter = [.markh] ∨ enter = [])
    (named absolute : Bool) (byte : UInt8) :
    Settles (leaveHost named absolute enter byte) byte := by
  have saves : Harmless (enter ++ [.saveHost]) ∧ Harmless (enter ++ [.saveUserinfo]) ∧
      enter ++ [.saveHost] ∈ authorityEnds := by
    rcases marks with rfl | rfl <;>
      exact ⟨harmless_of_not_mem (by decide), harmless_of_not_mem (by decide), by decide⟩
  rw [leaveHost]
  split
  · exact settles_of_harmless saves.1 fun _ => trivial
  · split
    · exact settles_of_harmless saves.2.1 fun _ => trivial
    · split
      · exact settles_of_harmless (harmless_of_not_mem (by decide)) fun _ => trivial
      · exact settles_leaveAuthority saves.2.2 absolute byte

theorem settles_atSign (absolute : Bool) {byte : UInt8} {otherwise : List UriAction × UriState}
    (settles : Settles otherwise byte) :
    Settles (if byte = 64 then ([.saveUserinfo], .inside (.authority true absolute)) else otherwise)
      byte := by
  split
  · exact settles_of_harmless (harmless_of_not_mem (by decide)) fun _ => trivial
  · exact settles

theorem settles_leavePort {leave : List UriAction} (mem : leave ∈ authorityEnds)
    (named absolute : Bool) (byte : UInt8) :
    Settles (leavePort named absolute leave byte) byte := by
  have ends := settles_leaveAuthority mem absolute byte
  rw [leavePort]
  split
  · exact ends
  · exact settles_goOn (harmless_of_not_mem (by decide)) (by simp) (settles_atSign absolute ends)

theorem settles_error (byte : UInt8) : Settles ([], .error) byte :=
  settles_of_harmless (harmless_of_not_mem (by decide)) fun _ => trivial

/-- A transition without actions to a place that does not save the path. -/
theorem settles_quiet {actions : List UriAction} {place : UriPlace} {byte : UInt8}
    (other : .savePath ∉ actions) (apart : place ≠ .segments) :
    Settles (actions, .inside place) byte :=
  settles_of_harmless (harmless_of_not_mem other) fun _ => by cases place <;> trivial

theorem settles_ite {condition : Prop} [Decidable condition] {byte : UInt8}
    {first second : List UriAction × UriState} (yes : Settles first byte)
    (no : Settles second byte) : Settles (if condition then first else second) byte := by
  split
  · exact yes
  · exact no

theorem settles_next {place : UriPlace} (apart : place ≠ .segments) (byte : UInt8) :
    Settles (place.next byte) byte := by
  have nothing : Harmless [] := harmless_of_not_mem (by decide)
  have markU : Harmless [.marku] := harmless_of_not_mem (by decide)
  have markH : Harmless [.markh] := harmless_of_not_mem (by decide)
  have ends : Settles (ending [] byte) byte := settles_ending nothing byte
  have pathEnds : Settles (pathEnding byte) byte :=
    settles_ite (settles_quiet (by decide) (by decide)) ends
  cases place with
  | start =>
      exact settles_ite (settles_quiet (by decide) (by decide))
        (settles_ite (settles_quiet (by decide) (by decide))
          (settles_ite (settles_error byte) (settles_goOn nothing (by decide) ends)))
  | noscheme => exact settles_ite (settles_error byte) (settles_goOn nothing (by decide) pathEnds)
  | scheme =>
      exact settles_ite (settles_quiet (by decide) (by decide))
        (settles_ite (settles_quiet (by decide) (by decide))
          (settles_goOn nothing (by decide) pathEnds))
  | hier =>
      exact settles_ite (settles_quiet (by decide) (by decide))
        (settles_goOn nothing (by decide) ends)
  | slash absolute =>
      exact settles_ite (settles_quiet (by decide) (by simp))
        (settles_goOn nothing (by decide) ends)
  | rootless => exact settles_goOn nothing (by decide) ends
  | authority named absolute =>
      exact settles_ite (settles_of_harmless nothing fun _ => trivial)
        (settles_goOn markH (by simp) (settles_leaveHost (Or.inl rfl) named absolute byte))
  | regName named absolute =>
      exact settles_goOn nothing (by simp) (settles_leaveHost (Or.inr rfl) named absolute byte)
  | port named absolute =>
      exact settles_ite (settles_quiet (by decide) (by simp))
        (settles_leavePort (by decide) named absolute byte)
  | portDigits named absolute =>
      exact settles_ite (settles_quiet (by decide) (by simp))
        (settles_leavePort (by decide) named absolute byte)
  | userinfo absolute =>
      exact settles_goOn nothing (by simp) (settles_atSign absolute (settles_error byte))
  | segments => exact absurd rfl apart
  | query =>
      exact settles_goOn markU (by decide)
        (settles_ite (settles_quiet (by decide) (by decide)) (settles_error byte))
  | queryText =>
      exact settles_goOn nothing (by decide)
        (settles_ite (settles_quiet (by decide) (by decide)) (settles_error byte))
  | fragment => exact settles_goOn markU (by decide) (settles_error byte)
  | fragmentText => exact settles_goOn nothing (by decide) (settles_error byte)

theorem encoded_savePath {memory : UriMemory} (reading : PathRead (.inside .segments, memory)) :
    Encoded isPathByte (memory.perform .savePath).uri.path := by
  cases isMark : memory.mark with
  | none =>
      simp only [UriMemory.perform, UriMemory.save, isMark]
      exact reading.saved
  | some text =>
      simp only [UriMemory.perform, UriMemory.save, isMark]
      exact reading.marked text isMark

/-! ### Runs -/

/-- **One byte of a path that will be saved.** -/
theorem pathRead_segments {memory : UriMemory} {byte : UInt8}
    (reading : PathRead (.inside .segments, memory)) :
    PathRead (uriMachine.step (.inside .segments, memory) byte) := by
  have longer : ∀ {state : UriState}, (∀ front, Encoded isPathByte front →
      state.Marked (front ++ [byte])) → PathRead (state, memory.consume byte) := by
    intro state marks
    refine ⟨reading.saved, fun text isText => ?_⟩
    obtain ⟨front, isFront, rfl⟩ := Option.map_eq_some_iff.mp isText
    exact marks front (reading.marked front isFront)
  have saves : ∀ {state : UriState}, (∀ text, state.Marked text) →
      PathRead (state, (memory.perform .savePath).consume byte) := by
    intro state apart
    exact ⟨encoded_savePath reading, fun text _ => apart text⟩
  show PathRead ((goOn isPathByte [] .segments byte (ending [.savePath] byte)).2,
    ((goOn isPathByte [] .segments byte (ending [.savePath] byte)).1.foldl UriMemory.perform
      memory).consume byte)
  by_cases escape : byte = 37
  · rw [goOn, if_pos escape]
    exact longer fun front encoded => ⟨front, by rw [escape], encoded⟩
  by_cases inside : isPathByte byte = true
  · rw [goOn, if_neg escape, if_pos inside]
    exact longer fun front encoded => encoded.append (Encoded.byte inside Encoded.nil)
  rw [goOn, if_neg escape, if_neg inside, ending]
  split
  · exact saves fun _ => trivial
  · split
    · exact saves fun _ => trivial
    · exact ⟨reading.saved, fun _ _ => trivial⟩

/-- **One byte keeps the path in the grammar.** -/
theorem pathRead_step {config : UriState × UriMemory} (reading : PathRead config) (byte : UInt8) :
    PathRead (uriMachine.step config byte) := by
  obtain ⟨state, memory⟩ := config
  cases state with
  | inside place =>
      by_cases segments : place = .segments
      · subst segments
        exact pathRead_segments reading
      · exact settles_next segments byte memory reading.saved
  | percent place =>
      by_cases high : isXdigit byte = true
      · refine ⟨reading.saved, fun text isText => ?_⟩
        obtain ⟨front, isFront, rfl⟩ := Option.map_eq_some_iff.mp isText
        have marked := reading.marked front isFront
        show UriState.Marked (if isXdigit byte then .hex place else .error) _
        rw [if_pos high]
        cases place with
        | segments =>
            obtain ⟨earlier, rfl, encoded⟩ := marked
            exact ⟨earlier, byte, by simp, high, encoded⟩
        | _ => trivial
      · refine ⟨reading.saved, fun text _ => ?_⟩
        show UriState.Marked (if isXdigit byte then .hex place else .error) text
        rw [if_neg high]
        trivial
  | hex place =>
      by_cases low : isXdigit byte = true
      · refine ⟨reading.saved, fun text isText => ?_⟩
        obtain ⟨front, isFront, rfl⟩ := Option.map_eq_some_iff.mp isText
        have marked := reading.marked front isFront
        show UriState.Marked (if isXdigit byte then .inside place else .error) _
        rw [if_pos low]
        cases place with
        | segments =>
            obtain ⟨earlier, high, rfl, isHigh, encoded⟩ := marked
            show Encoded isPathByte (earlier ++ [37, high] ++ [byte])
            rw [List.append_assoc]
            exact encoded.append (Encoded.escape isHigh low Encoded.nil)
        | _ => trivial
      · refine ⟨reading.saved, fun text _ => ?_⟩
        show UriState.Marked (if isXdigit byte then .inside place else .error) text
        rw [if_neg low]
        trivial
  | error => exact ⟨reading.saved, fun _ _ => trivial⟩
  | beyond => exact ⟨reading.saved, fun _ _ => trivial⟩

/-- At the end of the text. -/
theorem pathRead_final {place : UriPlace} {memory : UriMemory} {actions : List UriAction}
    (reading : PathRead (.inside place, memory)) (ends : place.final = some actions) :
    Encoded isPathByte (actions.foldl UriMemory.perform memory).uri.path := by
  have leaves : ∀ {absolute : Bool} {leave : List UriAction}, leave ∈ authorityEnds →
      Harmless (UriPlace.final.leaveAll absolute leave) := by
    intro absolute leave mem
    cases absolute with
    | true => exact harmless_emptyPath mem
    | false =>
        refine harmless_of_not_mem ?_
        simp only [authorityEnds, List.mem_cons, List.not_mem_nil, or_false] at mem
        rcases mem with rfl | rfl | rfl | rfl <;> decide
  cases place with
  | segments =>
      cases ends
      exact encoded_savePath reading
  | userinfo absolute => cases ends
  | authority | regName | port | portDigits =>
      cases ends
      exact leaves (by decide) memory reading.saved
  | _ =>
      cases ends
      exact harmless_of_not_mem (by decide) memory reading.saved

/-- **The path of what is accepted is in the grammar.** -/
theorem path_of_create {text : List UInt8} {uri : Uri} (created : Uri.create text = .uri uri) :
    Encoded isPathByte uri.path := by
  have starts : PathRead (.inside .start, UriMemory.init) := ⟨Encoded.nil, fun _ _ => trivial⟩
  have runs : ∀ final, uriMachine.scanner.passes (.inside .start, UriMemory.init) text = some final →
      PathRead final :=
    Scanner.passes_invariant (fun config byte reading => pathRead_step reading byte) text starts
  rw [Uri.create] at created
  generalize passed : uriMachine.scanner.passes (.inside .start, UriMemory.init) text = result
    at created runs
  match result, created with
  | some (.inside place, memory), created =>
      rw [Uri.finish] at created
      cases ends : place.final with
      | none =>
          rw [ends] at created
          cases created
      | some actions =>
          rw [ends] at created
          have encoded := pathRead_final (runs _ rfl) ends
          simp only [UriMemory.created] at created
          split at created
          · cases created
          · cases created
            exact encoded

end Wyze

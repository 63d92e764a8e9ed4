import HttpServer.Library.Depth
import HttpServer.StaticPlan.Plan

set_option autoImplicit false

namespace HttpServer.StaticPlan

open Unicode Text HttpServer.Core Dialogue

variable (p : Planner)

theorem notFound_atMost : AtMost 1 p.notFound := by
  intro file
  dsimp only
  split
  next =>
    split
    next => exact atMost_done _ _
    next => exact atMost_done _ _
  next => exact atMost_done _ _

theorem serve_atMost (file : File) (path : Str) (encoding : Option Str) :
    AtMost 1 (p.serve file path encoding) := by
  unfold Planner.serve
  dsimp only
  split
  next => exact fun bytes => atMost_done _ _
  next => exact atMost_done _ _

-- Each choice is opened, looked at and read from, at most.
theorem chooseFrom_atMost {limit : Nat} {missing : Step} (few : AtMost limit missing)
    (choices : List Choice) (index : Nat) :
    AtMost (3 * choices.length + limit) (p.chooseFrom missing choices index) := by
  induction choices generalizing index with
  | nil => exact few.mono (by omega)
  | cons choice rest ih =>
    have count : 3 * (choice :: rest).length + limit = 3 * rest.length + limit + 3 := by
      rw [List.length_cons]
      omega
    rw [count]
    have served (file : File) (more : Nat) :
        AtMost (3 * rest.length + limit + more + 1) (p.serve file choice.represented choice.encoding) :=
      (serve_atMost p file _ _).mono (by omega)
    have later (more : Nat) :
        AtMost (3 * rest.length + limit + more) (p.chooseFrom missing rest (index + 1)) :=
      (ih (index + 1)).mono (by omega)
    intro file
    dsimp only
    cases file with
    | none => exact later 2
    | some file =>
      dsimp only
      by_cases regular : file.kind = 1
      · rw [if_pos regular]
        by_cases compressed : choice.encoding = some gzip
        · rw [if_pos compressed]
          intro bytes
          dsimp only
          split
          next => exact served file 0
          next =>
            split
            next => exact atMost_done _ _
            next => exact later 1
        · rw [if_neg compressed]
          exact served file 1
      · rw [if_neg regular]
        exact later 2

theorem representations_length (path : Str) (index : Bool) :
    (p.representations path index).length ≤ 5 := by
  have forced : (forcedChoices p.config path index).length ≤ 1 := by
    unfold forcedChoices
    split_ifs <;> simp
  have default : (defaultChoices p.config path index).length ≤ 1 := by
    unfold defaultChoices
    split
    next => split_ifs <;> simp
    next => simp
  unfold Planner.representations
  dsimp only
  simp only [List.length_append, List.length_singleton]
  split_ifs <;> simp only [List.length_singleton, List.length_nil] <;> omega

theorem choose_atMost {limit : Nat} {missing : Step} (few : AtMost limit missing) (path : Str)
    (index : Bool) : AtMost (15 + limit) (p.choose (p.representations path index) missing) := by
  have length := representations_length p path index
  exact (chooseFrom_atMost p few _ 0).mono (by omega)

theorem listing_atMost (path rawPath : Str) (query : Option Str) :
    AtMost 1 (p.listing path rawPath query) := by
  unfold Planner.listing
  dsimp only
  split
  next => exact atMost_done _ _
  next => exact fun entries => atMost_done _ _

theorem unanswered_atMost : AtMost 1 p.unanswered := by
  unfold Planner.unanswered
  split
  next => exact atMost_done _ _
  next => exact notFound_atMost p

theorem directoryMissing_atMost (path rawPath : Str) (query : Option Str) :
    AtMost 2 (p.directoryMissing path rawPath query) := by
  unfold Planner.directoryMissing
  dsimp only
  split_ifs
  · intro file
    dsimp only
    split
    next =>
      split_ifs
      · exact notFound_atMost p
      · exact listing_atMost p path rawPath query
    next => exact listing_atMost p path rawPath query
  · exact (listing_atMost p path rawPath query).mono (by omega)
  · exact (unanswered_atMost p).mono (by omega)

theorem directory_atMost (path rawPath : Str) (query : Option Str) :
    AtMost 17 (p.directory path rawPath query) := by
  have missing := directoryMissing_atMost p path rawPath query
  unfold Planner.directory
  dsimp only
  split_ifs
  · exact (notFound_atMost p).mono (by omega)
  · exact atMost_done _ _
  · exact choose_atMost p missing _ true
  · exact missing.mono (by omega)

theorem fileMissing_atMost : AtMost 15 p.fileMissing := by
  unfold Planner.fileMissing
  dsimp only
  split_ifs
  · exact choose_atMost p (atMost_done 0 _) _ true
  · exact (unanswered_atMost p).mono (by omega)

theorem resolved_atMost (path rawPath : Str) (query : Option Str) :
    AtMost 31 (p.resolved path rawPath query) := by
  have direct := choose_atMost p (fileMissing_atMost p) path false
  intro file
  dsimp only
  split
  next =>
    split_ifs
    · exact (directory_atMost p path rawPath query).mono (by omega)
    · exact direct
  next => exact direct

theorem files_atMost : AtMost 31 p.files := by
  unfold Planner.files
  dsimp only
  split
  next => exact atMost_done _ _
  next =>
    split
    next => exact resolved_atMost p _ _ _
    next => exact atMost_done _ _
    next => exact atMost_done _ _
    next => exact atMost_done _ _
    next =>
      split
      next => exact (notFound_atMost p).mono (by omega)
      next => exact atMost_done _ _

theorem start_atMost (config : Config) (request : Request) (mime : MimeRegistry) :
    AtMost 31 (start config request mime) := by
  unfold start
  dsimp only
  split
  next => exact atMost_done _ _
  next => exact atMost_done _ _
  next => exact atMost_done _ _
  next => exact atMost_done _ _
  next =>
    split
    next => exact atMost_done _ _
    next => exact files_atMost _

end HttpServer.StaticPlan

import MatrixBin.Metrology.LoadAcceptance

/-!
# Loads that fail

The parsers write into the configuration in force.  The first thing that they store is the
version, so a failed load leaves the configuration alone only if it stops before that.
-/

namespace MatrixBin
namespace Metrology

open Library

/-- The configuration before a call of the library: its strings come from earlier calls. -/
structure LibraryState where
  configuration : MatrixConfiguration
  calls : Nat
  earlier : ∀ p ∈ configuration.version, p.call < calls

section Frames

variable {σ : Type} {β : Type}

theorem keeps_withObject
    {view : σ → β}
    (json : Json)
    (name : String)
    {k : Json → Filler σ}
    (hk : ∀ item, (k item).Keeps view) :
    (withObject json name k).Keeps view := by
  unfold withObject
  cases json.getObjectItem name with
  | none => exact Filler.Keeps.fail view
  | some item =>
      by_cases hobject : item.isObject
      · simpa [hobject] using hk item
      · simpa [hobject] using Filler.Keeps.fail view

theorem keeps_withArray
    {view : σ → β}
    (json : Json)
    (name : String)
    {k : List Json → Filler σ}
    (hk : ∀ items, (k items).Keeps view) :
    (withArray json name k).Keeps view := by
  unfold withArray
  cases (json.getObjectItem name).bind Json.getArray with
  | none => exact Filler.Keeps.fail view
  | some items => exact hk items

end Frames

/-- The hardware section writes the device types and the channels. -/
theorem parserHardware_keeps
    {β : Type}
    {view : MatrixConfiguration → β}
    (hdevTypes : ∀ v s, view { s with devTypes := v } = view s)
    (hchannels : ∀ v s, view { s with channelConfiguration := v } = view s)
    (call : Nat)
    (tree : Json) :
    (parserHardware call tree).Keeps view := by
  apply keeps_withObject
  intro hardware
  apply Filler.Keeps.steps
  intro p hp
  rcases List.mem_pair.mp hp with rfl | rfl
  · exact keeps_withArray _ _ fun items => Filler.Keeps.onPart hdevTypes _
  · exact keeps_withArray _ _ fun items => Filler.Keeps.onPart hchannels _

theorem parserScales_keeps
    {β : Type}
    {view : MatrixConfiguration → β}
    (hscales : ∀ v s, view { s with scaleConfiguration := v } = view s)
    (tree : Json) :
    (parserScales tree).Keeps view :=
  keeps_withArray _ _ fun _ => Filler.Keeps.onPart hscales _

/-- After the version nothing writes it again. -/
theorem parserTree_version
    (call : Nat)
    {tree : Json}
    {version : List UInt8}
    (hversion : (tree.getObjectItem "version").bind Json.getStringValue = some version)
    (conf : MatrixConfiguration) :
    ((parserTree call tree).fill conf).version = some ⟨call, version⟩ := by
  have hlater :
      (Filler.steps
        [.onPart MatrixConfiguration.loadReceptor (fun v s => { s with loadReceptor := v })
          (parserGPU call tree),
        parserHardware call tree, parserScales tree]).Keeps MatrixConfiguration.version := by
    apply Filler.Keeps.steps
    intro p hp
    simp only [List.mem_cons, List.not_mem_nil, or_false] at hp
    rcases hp with rfl | rfl | rfl
    · refine Filler.Keeps.onPart ?_ _
      intro v s
      rfl
    · exact parserHardware_keeps (fun _ _ => rfl) (fun _ _ => rfl) call tree
    · exact parserScales_keeps (fun _ _ => rfl) tree
  have hstored :
      setString call tree "version" (fun v (s : MatrixConfiguration) => { s with version := v }) =
        Filler.store fun s => { s with version := some ⟨call, version⟩ } := by
    unfold setString
    rw [hversion]
    rfl
  unfold parserTree
  rw [hstored]
  exact hlater _

/-- Without a version nothing is written. -/
theorem parserTree_unversioned
    (call : Nat)
    {tree : Json}
    (hversion : tree.hasString "version" = false)
    (conf : MatrixConfiguration) :
    (parserTree call tree).ok = false ∧ (parserTree call tree).fill conf = conf := by
  have hnone : (tree.getObjectItem "version").bind Json.getStringValue = none := by
    simpa [Json.hasString] using hversion
  have hfail :
      setString call tree "version" (fun v (s : MatrixConfiguration) => { s with version := v }) =
        Filler.fail := by
    unfold setString
    rw [hnone]
    rfl
  unfold parserTree
  rw [hfail]
  exact ⟨rfl, rfl⟩

section Failure

variable (cJsonParse : List UInt8 → Option Json)

/-- The file cannot be read, has no document in it, or its document is not complete. -/
def ConfigurationFile.Defective (file : ConfigurationFile) : Prop :=
  ∀ tree, file.document cJsonParse = some tree → documentComplete tree = false

/-- There is no version to store: the file cannot be read, or has no document in it, or its
document has no version. -/
def ConfigurationFile.StopsBeforeVersion (file : ConfigurationFile) : Prop :=
  ∀ tree, file.document cJsonParse = some tree → tree.hasString "version" = false

/-- The load reports an error and the configuration is what it was. -/
def LoadRejected (state : LibraryState) (file : ConfigurationFile) : Prop :=
  (loadConfiguration cJsonParse state.calls file state.configuration).2 < 0 ∧
    (loadConfiguration cJsonParse state.calls file state.configuration).1 = state.configuration

/-- A load, from a defective file or not, is rejected without a trace exactly when it stops
before the version. -/
theorem loadRejected_iff
    (state : LibraryState)
    (file : ConfigurationFile) :
    LoadRejected cJsonParse state file ↔ file.StopsBeforeVersion cJsonParse := by
  unfold LoadRejected ConfigurationFile.StopsBeforeVersion ConfigurationFile.document
  cases htext : file.text with
  | none =>
      obtain ⟨hsame, hcode⟩ :=
        loadConfiguration_unread cJsonParse state.calls htext state.configuration
      simp [hsame, hcode]
  | some text =>
      rw [loadConfiguration_read cJsonParse htext, Option.bind_some]
      cases hparse : cJsonParse text with
      | none => simp [parserJSON, hparse, Filler.fail, matrixlibConfigError]
      | some tree =>
          simp only [parserJSON, hparse, Option.some.injEq, forall_eq']
          cases hversion : (tree.getObjectItem "version").bind Json.getStringValue with
          | none =>
              have hunversioned : tree.hasString "version" = false := by
                simp [Json.hasString, hversion]
              obtain ⟨hok, hfill⟩ :=
                parserTree_unversioned state.calls hunversioned state.configuration
              simp [hok, hfill, hunversioned, matrixlibConfigError]
          | some version =>
              have hversioned : tree.hasString "version" = true := by
                simp [Json.hasString, hversion]
              have hnew := parserTree_version state.calls hversion state.configuration
              rw [hversioned]
              simp only [Bool.true_eq_false, iff_false, not_and]
              intro _ hsame
              have hstamp : state.configuration.version = some ⟨state.calls, version⟩ := by
                rw [← hnew]
                conv_lhs => rw [← hsame]
                split <;> rfl
              exact lt_irrefl _ (state.earlier _ hstamp)

end Failure

/-- The state in which the complete document has been loaded. -/
def loadedState : LibraryState where
  configuration :=
    (loadConfiguration (parsePrinted [completeDocument]) 0 (fileOf completeDocument)
      initialization).1
  calls := 1
  earlier := by decide +kernel

/-- A document without scales and channels. -/
def unfinishedDocument : Json :=
  .ofMembers
    [("version", .ofText "1.0.0"),
      ("gpu", .ofMembers [("description", .ofText "gpu"), ("platforms", .array [])]),
      ("hardware",
        .ofMembers [("deviceTypes", .array [.ofText "LDU"]), ("channels", .array [])])]

theorem unfinishedDocument_document :
    (fileOf unfinishedDocument).document (parsePrinted [unfinishedDocument]) =
      some unfinishedDocument :=
  fileOf_document (by decide +kernel) (by simp)

theorem unfinishedDocument_defective :
    (fileOf unfinishedDocument).Defective (parsePrinted [unfinishedDocument]) := by
  intro tree htree
  rw [unfinishedDocument_document] at htree
  obtain rfl := Option.some.inj htree
  decide +kernel

/-- A system that is ready loses its channels to a load that fails. -/
theorem failed_load_drops_channels :
    loadedState.configuration.ready = true ∧
      (fileOf unfinishedDocument).Defective (parsePrinted [unfinishedDocument]) ∧
      loadedState.configuration.channelConfiguration.length = 1 ∧
      (loadConfiguration (parsePrinted [unfinishedDocument]) 1 (fileOf unfinishedDocument)
        loadedState.configuration).1.channelConfiguration = [] ∧
      ¬ LoadRejected (parsePrinted [unfinishedDocument]) loadedState
        (fileOf unfinishedDocument) := by
  have hfacts :
      loadedState.configuration.ready = true ∧
        loadedState.configuration.channelConfiguration.length = 1 ∧
        (loadConfiguration (parsePrinted [unfinishedDocument]) 1 (fileOf unfinishedDocument)
          loadedState.configuration).1.channelConfiguration = [] := by
    decide +kernel
  obtain ⟨hready, hone, hlost⟩ := hfacts
  refine ⟨hready, unfinishedDocument_defective, hone, hlost, ?_⟩
  rintro ⟨-, hsame⟩
  have hempty : loadedState.configuration.channelConfiguration = [] := by
    rw [← hlost]
    exact congrArg MatrixConfiguration.channelConfiguration hsame.symm
  rw [hempty] at hone
  cases hone

end Metrology
end MatrixBin

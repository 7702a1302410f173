import CompositorConf.Proofs.Text.Percent
import CompositorConf.Proofs.Workspace.History

/-!
# Which file a URI names

The URI of a file is a mark, an authority and a path.  Its file path is that of the
authority and the path, with escapes replaced: the authority is not left out.

* `FileUri` takes a URI apart, and `path_eq` is its file path;
* `pathNames_append` says that the last name in a path is up to what follows a
  slash, if there is a name in it;
* `file_of_uri` says which URIs name the same file, and `authority_is_kept` that two
  with different authorities do not.
-/

namespace CompositorConf

open Text

/-- The URI of a file: a mark, an authority, which may be empty, and a path. -/
structure FileUri (uri : Uri) (authority path : List Char) : Prop where
  text_eq : uri.text.toList = Uri.fileMark ++ authority ++ path
  single : '/' ∉ authority
  rooted : path.head? = some '/'

/-- Two texts that write the same bytes, in escapes or without. -/
def SameBytes (first second : List Char) : Prop :=
  ∃ bytes, Percent.Writes bytes (Utf8.encode first) ∧
    Percent.Writes bytes (Utf8.encode second)

theorem SameBytes.decode_eq {first second : List Char}
    (same : SameBytes first second) :
    Percent.decode first = Percent.decode second := by
  obtain ⟨bytes, ofFirst, ofSecond⟩ := same
  rw [Percent.decode, Percent.decodeBytes_of_writes ofFirst, Percent.decode,
    Percent.decodeBytes_of_writes ofSecond]

section Paths

variable {uri : Uri} {authority path : List Char}

theorem Uri.path_of_fileMark {rest : List Char}
    (text : uri.text.toList = Uri.fileMark ++ rest) :
    uri.path = String.ofList (Percent.decode rest) := by
  have isInitial : List.isPrefixOf? Uri.fileMark uri.text.toList = some rest := by
    rw [List.isPrefixOf?_eq_some_iff_append_eq, text]
  rw [Uri.path, isInitial]

/-- The path of a file begins with a slash, which stands for itself. -/
theorem FileUri.exists_decode (isFile : FileUri uri authority path) :
    ∃ names, Percent.decode path = '/' :: names ∧
      uri.path.toList = Percent.decode authority ++ '/' :: names := by
  obtain ⟨rest, rfl⟩ : ∃ rest, path = '/' :: rest := by
    cases path with
    | nil => cases isFile.rooted
    | cons first rest =>
        obtain rfl : first = '/' := Option.some.inj isFile.rooted
        exact ⟨rest, rfl⟩
  have cut (before : List Char) :
      Percent.decode (before ++ '/' :: rest) =
        Percent.decode before ++ '/' :: Percent.decode rest :=
    Percent.decode_append_cons (by decide) (by decide)
      (fun isSign => absurd isSign (by decide)) before
  have text := isFile.text_eq
  rw [List.append_assoc] at text
  refine ⟨Percent.decode rest, ?_, ?_⟩
  · have whole := cut []
    rwa [List.nil_append, Percent.decode_eq_nil_iff.mpr rfl, List.nil_append]
      at whole
  · rw [Uri.path_of_fileMark text, String.toList_ofList, cut]

/-- The file path of a URI still has its authority. -/
theorem FileUri.path_eq (isFile : FileUri uri authority path) :
    uri.path.toList = Percent.decode authority ++ Percent.decode path := by
  obtain ⟨names, isPath, isWhole⟩ := isFile.exists_decode
  rw [isWhole, isPath]

end Paths

section Names

theorem pathNames_append (front back : List Char) :
    pathNames (String.ofList (front ++ '/' :: back)) =
      pathNames (String.ofList front) ++ pathNames (String.ofList back) := by
  simp only [pathNames, String.toList_ofList, List.splitOn_append_cons_self,
    List.map_append, List.filter_append]

theorem fileName?_append {back : List Char}
    (named : pathNames (String.ofList back) ≠ []) (front : List Char) :
    fileName? (String.ofList (front ++ '/' :: back)) =
      fileName? (String.ofList back) := by
  rw [fileName?, pathNames_append, List.getLast?_append_of_ne_nil _ named,
    fileName?]

end Names

section Files

variable {uri other : Uri} {authority otherAuthority path otherPath : List Char}

/-- If there is a name in the path, the authority has no part in the last one. -/
theorem FileUri.fileName?_eq (isFile : FileUri uri authority path)
    (named : pathNames (String.ofList (Percent.decode path)) ≠ []) :
    fileName? uri.path = fileName? (String.ofList (Percent.decode path)) := by
  obtain ⟨names, isPath, isWhole⟩ := isFile.exists_decode
  have behindSlash : pathNames (String.ofList names) ≠ [] := by
    rw [isPath, ← List.nil_append ('/' :: names), pathNames_append] at named
    exact named
  have text : uri.path =
      String.ofList (Percent.decode authority ++ '/' :: names) := by
    rw [← isWhole, String.ofList_toList]
  rw [text, isPath, fileName?_append behindSlash,
    ← List.nil_append ('/' :: names), fileName?_append behindSlash]

theorem FileUri.path_eq_iff (isFile : FileUri uri authority path)
    (isOther : FileUri other otherAuthority otherPath)
    (same : SameBytes path otherPath) :
    uri.path = other.path ↔
      Percent.decode authority = Percent.decode otherAuthority := by
  rw [← String.toList_inj, isFile.path_eq, isOther.path_eq, same.decode_eq]
  exact List.append_left_inj _

/-- Files at different paths can have different contents. -/
theorem Workspace.forall_content_eq_iff {workspace : Workspace}
    (closed : workspace.get? uri = none)
    (otherClosed : workspace.get? other = none) :
    (∀ disk, workspace.content disk uri = workspace.content disk other) ↔
      uri.path = other.path := by
  have content (disk : Disk) {uri : Uri} (closed : workspace.get? uri = none) :
      workspace.content disk uri = disk.readText uri.path := by
    rw [Workspace.content, closed]
  constructor
  · intro same
    by_contra different
    have onDisk := same fun path =>
      if path = uri.path then .error .notFound else .error .isDirectory
    rw [content _ closed, content _ otherClosed, Disk.readText, Disk.readText,
      if_pos rfl, if_neg (Ne.symm different)] at onDisk
    cases onDisk
  · intro same disk
    rw [content disk closed, content disk otherClosed, same]

/-- **Which file a URI names.**  The file path of a URI is that of its authority and
its path, with escapes replaced, so that it is that of the path alone exactly if the
authority is empty.  Two URIs whose paths write the same bytes are read from the
same file exactly if their authorities say the same, after any history in which they
are not open.  The settings leave both alone or neither, if the authorities say the
same or there is a name in the path. -/
theorem file_of_uri (isFile : FileUri uri authority path) :
    uri.path.toList = Percent.decode authority ++ Percent.decode path ∧
      (uri.path.toList = Percent.decode path ↔ authority = []) ∧
      ∀ other otherAuthority otherPath,
        FileUri other otherAuthority otherPath → SameBytes path otherPath →
        ∀ settings operations,
          let workspace := Workspace.afterAll settings operations
          (Percent.decode authority = Percent.decode otherAuthority ∨
              pathNames (String.ofList (Percent.decode path)) ≠ [] →
            workspace.isIgnored uri = workspace.isIgnored other) ∧
          (workspace.get? uri = none → workspace.get? other = none →
            ((∀ disk, workspace.content disk uri =
                workspace.content disk other) ↔
              Percent.decode authority = Percent.decode otherAuthority)) := by
  refine ⟨isFile.path_eq, ?_, ?_⟩
  · rw [isFile.path_eq, List.append_left_eq_self, Percent.decode_eq_nil_iff]
  · intro other otherAuthority otherPath isOther same settings operations workspace
    have keeps : workspace.KeepsPaths :=
      Workspace.keepsPaths_afterAll settings operations
    have paths := isFile.path_eq_iff isOther same
    constructor
    · intro agree
      rw [keeps.isIgnored_eq, keeps.isIgnored_eq]
      rcases agree with authorities | named
      · rw [paths.mpr authorities]
      · have otherNamed := named
        rw [same.decode_eq] at otherNamed
        rw [Settings.ignores, isFile.fileName?_eq named, same.decode_eq,
          ← isOther.fileName?_eq otherNamed, Settings.ignores]
    · intro closed otherClosed
      rw [Workspace.forall_content_eq_iff closed otherClosed, paths]

end Files

def tildeUri : Uri :=
  ⟨"file:///~a", by decide +kernel⟩

def escapedUri : Uri :=
  ⟨"file:///%7ea", by decide +kernel⟩

def closedAgain : List WorkspaceOperation :=
  [.opening tildeUri 1 "", .closing tildeUri]

/-- Both URIs name the same file. -/
theorem tilde_may_be_escaped :
    let workspace := Workspace.afterAll {} closedAgain
    FileUri tildeUri [] "/~a".toList ∧ FileUri escapedUri [] "/%7ea".toList ∧
      tildeUri.path.toList = Percent.decode "/~a".toList ∧
      workspace.isIgnored tildeUri = workspace.isIgnored escapedUri ∧
      ∀ disk, workspace.content disk tildeUri =
        workspace.content disk escapedUri := by
  have isTilde : FileUri tildeUri [] "/~a".toList :=
    ⟨by decide +kernel, List.not_mem_nil, by decide +kernel⟩
  have isEscaped : FileUri escapedUri [] "/%7ea".toList :=
    ⟨by decide +kernel, List.not_mem_nil, by decide +kernel⟩
  have same : SameBytes "/~a".toList "/%7ea".toList := by
    have plain : Utf8.encode "/~a".toList =
        [Percent.code '/', Percent.code '~', Percent.code 'a'] := by
      decide +kernel
    have escaped : Utf8.encode "/%7ea".toList =
        [Percent.code '/', Percent.sign, Percent.code '7', Percent.code 'e',
          Percent.code 'a'] := by
      decide +kernel
    refine ⟨Utf8.encode "/~a".toList, ?_, ?_⟩
    · rw [plain]
      exact .plain (by decide) (.plain (by decide) (.plain (by decide) .nil))
    · rw [plain, escaped]
      exact .plain (by decide) (.escape (by decide) (.plain (by decide) .nil))
  obtain ⟨_, alone, agree⟩ := file_of_uri isTilde
  obtain ⟨ignored, onDisk⟩ := agree escapedUri [] _ isEscaped same {}
    closedAgain
  exact ⟨isTilde, isEscaped, alone.mpr rfl, ignored (.inl rfl),
    (onDisk (by decide +kernel) (by decide +kernel)).mpr rfl⟩

def localUri : Uri :=
  ⟨"file:///tmp/hyprland.conf", by decide +kernel⟩

def localhostUri : Uri :=
  ⟨"file://localhost/tmp/hyprland.conf", by decide +kernel⟩

def rootUri : Uri :=
  ⟨"file:///", by decide +kernel⟩

/-- The root of the file system on a machine that is named like an ignored
file. -/
def hyprlockUri : Uri :=
  ⟨"file://hyprlock.conf/", by decide +kernel⟩

/-- An authority is not left out: the file is looked for below a directory of that
name, and a path without a name takes the name of the authority. -/
theorem authority_is_kept :
    FileUri localUri [] "/tmp/hyprland.conf".toList ∧
      FileUri localhostUri "localhost".toList "/tmp/hyprland.conf".toList ∧
      localUri.path = "/tmp/hyprland.conf" ∧
      localhostUri.path = "localhost/tmp/hyprland.conf" ∧
      localhostUri.path.toList ≠ Percent.decode "/tmp/hyprland.conf".toList ∧
      (∃ disk, ({} : Workspace).content disk localhostUri ≠
        ({} : Workspace).content disk localUri) ∧
      ({} : Workspace).isIgnored hyprlockUri = true ∧
      ({} : Workspace).isIgnored rootUri = false := by
  have isLocal : localUri.path = "/tmp/hyprland.conf" := by decide +kernel
  have isLocalhost : localhostUri.path = "localhost/tmp/hyprland.conf" := by
    decide +kernel
  have closed (uri : Uri) : ({} : Workspace).get? uri = none := rfl
  refine ⟨⟨by decide +kernel, List.not_mem_nil, by decide +kernel⟩,
    ⟨by decide +kernel, by decide +kernel, by decide +kernel⟩, isLocal,
    isLocalhost, by decide +kernel, ?_, by decide +kernel, by decide +kernel⟩
  by_contra none
  push Not at none
  have same := (Workspace.forall_content_eq_iff (closed _) (closed _)).mp none
  rw [isLocal, isLocalhost] at same
  exact absurd same (by decide)

end CompositorConf

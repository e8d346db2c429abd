import Refsite.CommandLine.Execute
import Refsite.Plain
import Refsite.Proofs.Disk.Follow
import Refsite.Proofs.Site.Failures
namespace Refsite

open Run

def Run.Escapes {α : Type} (x : Run α) (w : World) : Prop :=
  ∃ f, (x.start w).1 = .error f ∧ f.isGiven = false

variable {w : World}

theorem not_escapes_of_ok {α : Type} {x : Run α} {a : α} (h : (x.start w).1 = .ok a) :
    ¬x.Escapes w := by
  rintro ⟨f, hf, -⟩
  rw [h] at hf
  cases hf

namespace Settings

variable {root : Path} {entry : Option DiskEntry}

def ofBytes (file : Path) (bytes : List UInt8) : Except Failure Settings :=
  match Text.Encoding.ofOption (Text.Utf8.decode? bytes) with
  | .error fault => .error (.decode fault)
  | .ok text => ofToml file text

def Unreported (bytes : List UInt8) : Prop :=
  (∃ fault, Text.Encoding.ofOption (Text.Utf8.decode? bytes) = .error fault) ∨
    ∃ text, Text.Encoding.ofOption (Text.Utf8.decode? bytes) = .ok text ∧
      Toml.parse text = .error .tooLongInteger

theorem start_load_file {bytes : List UInt8}
    (hlook : w.disk.look (root.child fileName) = .ok (some (.file bytes)))
    (hread : w.disk.read (root.child fileName) = .ok bytes) :
    ((load root).start w).1 = ofBytes (root.child fileName) bytes := by
  have hfile : (isFile (root.child fileName)).start w = (.ok true, w) := start_isFile hlook
  have hbytes : (ofExcept Failure.disk (w.disk.read (root.child fileName))).start w =
      (.ok bytes, w) := by
    rw [hread]
    rfl
  rw [load, start_bind_ok hfile, if_pos rfl, start_bind_ok (start_disk w), start_bind_ok hbytes,
    ofBytes]
  cases Text.Encoding.ofOption (Text.Utf8.decode? bytes) with
  | error fault => rfl
  | ok text => exact start_ofExcept_fst (ofToml (root.child fileName) text) w

theorem start_load_other (hlook : w.disk.look (root.child fileName) = .ok entry)
    (hentry : entry.any DiskEntry.isFile = false) : ((load root).start w).1 = .ok standard := by
  have hfile : (isFile (root.child fileName)).start w = (.ok false, w) :=
    hentry ▸ start_isFile hlook
  rw [load, start_bind_ok hfile]
  rfl

theorem isGiven_of_ofToml {file : Path} {text : List Char} {f : Failure}
    (h : ofToml file text = .error f) :
    f.isGiven = false ↔ Toml.parse text = .error .tooLongInteger := by
  unfold ofToml at h
  split at h
  · next hparse =>
    cases h
    rw [hparse]
    exact iff_of_false nofun nofun
  · next hparse =>
    cases h
    exact iff_of_true rfl hparse
  · next hparse =>
    rw [hparse]
    split at h
    · cases h
    · cases h
      exact iff_of_false nofun nofun

theorem ofBytes_unreported_iff {file : Path} {bytes : List UInt8} :
    (∃ f, ofBytes file bytes = .error f ∧ f.isGiven = false) ↔ Unreported bytes := by
  unfold ofBytes Unreported
  cases hdecode : Text.Encoding.ofOption (Text.Utf8.decode? bytes) with
  | error fault => exact iff_of_true ⟨_, rfl, rfl⟩ (.inl ⟨fault, rfl⟩)
  | ok text =>
    simp only [reduceCtorEq, exists_false, false_or, Except.ok.injEq, exists_eq_left']
    constructor
    · rintro ⟨f, hf, hgiven⟩
      exact (isGiven_of_ofToml hf).mp hgiven
    · intro hparse
      refine ⟨.tooLongInteger file, ?_, rfl⟩
      rw [ofToml, hparse]

/-- Settings that can be read escape exactly if they are no text, or a TOML text with an integer
that is too long. -/
theorem escapes_load_iff (hlook : w.disk.look (root.child fileName) = .ok entry) :
    (load root).Escapes w ↔
      ∃ bytes, w.disk.read (root.child fileName) = .ok bytes ∧ Unreported bytes := by
  cases hfile : entry.any DiskEntry.isFile with
  | false =>
    refine iff_of_false (not_escapes_of_ok (start_load_other hlook hfile)) ?_
    rintro ⟨bytes, hread, -⟩
    obtain ⟨place, hplace, hentry⟩ := Disk.read_ok_iff.mp hread
    rw [Disk.look_of_locate hplace, hentry] at hlook
    cases hlook
    cases hfile
  | true =>
    obtain ⟨bytes, rfl⟩ : ∃ bytes, entry = some (.file bytes) := by
      cases entry with
      | none => cases hfile
      | some entry =>
        cases entry with
        | file bytes => exact ⟨bytes, rfl⟩
        | directory | link _ => cases hfile
    have hread := Disk.read_of_look hlook
    simp only [Escapes, start_load_file hlook hread, hread, ofBytes_unreported_iff,
      Except.ok.injEq, exists_eq_left']

end Settings

namespace Doclet

variable {input : Path} {bytes : List UInt8}

theorem not_escapes_load (hread : w.disk.read input = .ok bytes) : ¬(load input).Escapes w := by
  rintro ⟨f, hf, hgiven⟩
  rw [load, start_bind_ok (start_disk w), hread] at hf
  dsimp only at hf
  split at hf
  · cases hf
    cases hgiven
  · next x hx =>
    rw [start_ofExcept_fst] at hf
    cases hraw : ofJson? x with
    | none =>
      rw [hraw] at hf
      cases hf
      cases hgiven
    | some raw =>
      rw [hraw] at hf
      cases hf

def HasTangledKind (d : Doclet) : Prop :=
  (∃ items, d.value "kind" = .array items) ∨ ∃ es, d.value "kind" = .object es

theorem symbol?_unfit_iff {d : Doclet} :
    (∃ m, d.symbol? = .error (.unfit m)) ↔ d.HasTangledKind := by
  unfold symbol? HasTangledKind
  cases d.value "kind" with
  | array items => exact iff_of_true ⟨_, rfl⟩ (.inl ⟨items, rfl⟩)
  | object es => exact iff_of_true ⟨_, rfl⟩ (.inr ⟨es, rfl⟩)
  | string word =>
    refine iff_of_false ?_ (by simp)
    rintro ⟨m, hm⟩
    dsimp only at hm
    split at hm
    · split at hm <;> cases hm
    · cases hm
  | null | bool _ | int _ | float _ => exact iff_of_false nofun (by simp)

theorem symbolsFrom_unfit_iff (position : Nat) {raw : List Doclet} :
    (∃ m, (symbolsFrom position raw).2 = .error (.unfit m)) ↔
      ∃ before d after, raw = before ++ d :: after ∧ (∀ e ∈ before, ∃ s, e.symbol? = .ok s) ∧
        d.HasTangledKind := by
  induction raw generalizing position with
  | nil => exact iff_of_false nofun (by simp)
  | cons first raw ih =>
    -- A tangled doclet is the first one, or the first one is fine and it is among the others.
    have hsplit : (∃ before d after, first :: raw = before ++ d :: after ∧
        (∀ e ∈ before, ∃ s, e.symbol? = .ok s) ∧ d.HasTangledKind) ↔
        first.HasTangledKind ∨ (∃ s, first.symbol? = .ok s) ∧
          ∃ before d after, raw = before ++ d :: after ∧
            (∀ e ∈ before, ∃ s, e.symbol? = .ok s) ∧ d.HasTangledKind := by
      constructor
      · rintro ⟨before, d, after, heq, hbefore, hd⟩
        cases before with
        | nil =>
          cases heq
          exact .inl hd
        | cons e before =>
          cases heq
          obtain ⟨hfirst, hbefore⟩ := List.forall_mem_cons.mp hbefore
          exact .inr ⟨hfirst, before, d, after, rfl, hbefore, hd⟩
      · rintro (hd | ⟨hfirst, before, d, after, rfl, hbefore, hd⟩)
        · exact ⟨[], first, raw, rfl, nofun, hd⟩
        · exact ⟨first :: before, d, after, rfl, List.forall_mem_cons.mpr ⟨hfirst, hbefore⟩, hd⟩
    rw [hsplit, ← symbol?_unfit_iff, symbolsFrom]
    cases hfirst : first.symbol? with
    | error e => simp
    | ok found =>
      cases found with
      | none => simpa using ih (position + 1)
      | some s =>
        simp only [reduceCtorEq, exists_false, Except.ok.injEq, exists_eq', true_and, false_or]
        rw [← ih (position + 1)]
        cases (symbolsFrom (position + 1) raw).2 <;> simp [Except.map]

theorem escapes_loadSymbols_iff {raw : List Doclet} :
    (loadSymbols raw).Escapes w ↔
      ∃ before d after, raw = before ++ d :: after ∧ (∀ e ∈ before, ∃ s, e.symbol? = .ok s) ∧
        d.HasTangledKind := by
  rw [← symbolsFrom_unfit_iff 0, Escapes, loadSymbols]
  dsimp only
  rw [start_bind_ok (start_remarkAll _ w), symbols]
  cases (symbolsFrom 0 raw).2 with
  | ok symbols =>
    refine iff_of_false ?_ ?_
    · rintro ⟨f, hf, -⟩
      cases hf
    · rintro ⟨m, hm⟩
      cases hm
  | error e =>
    cases e with
    | unfit m => exact iff_of_true ⟨_, rfl, rfl⟩ ⟨m, rfl⟩
    | malformed longname faults =>
      refine iff_of_false ?_ ?_
      · rintro ⟨f, hf, hgiven⟩
        cases hf
        cases hgiven
      · rintro ⟨m, hm⟩
        cases hm

end Doclet

namespace Tutorial

variable {directory : Path} {encoding : String} {names : List String}

def IsLegible [Text.Codecs] (d : Disk) (encoding : String) (file : Path) : Prop :=
  formatOf? file ≠ none → ∃ entry, d.look file = .ok entry ∧
    (entry.any DiskEntry.isFile = true → ∃ text, textOf encoding (d.read file) = .ok text)

theorem exists_readFiles [Text.Codecs]
    (h : ∀ name ∈ names, IsLegible w.disk encoding (directory.child name))
    (ts : List Tutorial) :
    ∃ loose, (readFiles directory encoding ts names).start w = (.ok loose, w) := by
  induction names generalizing ts with
  | nil => exact ⟨ts, rfl⟩
  | cons name names ih =>
    obtain ⟨hname, hnames⟩ := List.forall_mem_cons.mp h
    cases hformat : formatOf? (directory.child name) with
    | none =>
      rw [start_readFiles_other hformat]
      exact ih hnames ts
    | some format =>
      obtain ⟨entry, hlook, htext⟩ := hname (by rw [hformat]; nofun)
      cases hfile : entry.any DiskEntry.isFile with
      | false =>
        have hno : (isFile (directory.child name)).start w = (.ok false, w) :=
          hfile ▸ start_isFile hlook
        unfold readFiles
        dsimp only
        rw [hformat]
        dsimp only
        rw [start_bind_ok hno]
        exact ih hnames ts
      | true =>
        obtain ⟨text, htext⟩ := htext hfile
        have hread : (readText (directory.child name) encoding).start w = (.ok text, w) := by
          rw [readText_eq, start_bind_ok (start_disk w), htext]
          rfl
        rw [start_readFiles_file hformat (hfile ▸ start_isFile hlook) hread]
        exact ih hnames _

/-- A value in the place of the children that is there and names nothing: a number or a truth. -/
inductive NamesNothing : Json → Prop
  | bool : NamesNothing (.bool true)
  | int {n : Int} (hn : n ≠ 0) : NamesNothing (.int n)
  | float {x : Binary64} (hx : x.isZero = false) : NamesNothing (.float x)

theorem childrenIn_error_iff {config : Json.Entries} :
    (∃ m, childrenIn config = .error m) ↔
      ∃ x, config.find? "children" = some x ∧ NamesNothing x := by
  unfold childrenIn
  cases config.find? "children" with
  | none => exact iff_of_false nofun nofun
  | some x =>
    simp only [Option.getD_some, Option.some.injEq, exists_eq_left']
    cases hpresent : x.isPresent with
    | false =>
      refine iff_of_false nofun ?_
      rintro (_ | hn | hx)
      · cases hpresent
      · simp [Json.isPresent, hn] at hpresent
      · simp [Json.isPresent, hx] at hpresent
    | true =>
      rw [Bool.not_true, if_neg Bool.false_ne_true]
      cases x with
      | null => cases hpresent
      | bool b =>
        cases b with
        | false => cases hpresent
        | true => exact iff_of_true ⟨_, rfl⟩ .bool
      | int n => exact iff_of_true ⟨_, rfl⟩ (.int (by simpa [Json.isPresent] using hpresent))
      | float x => exact iff_of_true ⟨_, rfl⟩ (.float (by simpa [Json.isPresent] using hpresent))
      | string _ | array _ | object _ => exact iff_of_false nofun nofun

theorem nest_error_iff (configs : Configs) (names : List String) (parents : Parents)
    (rest : List String) :
    (∃ m, (nest configs names parents rest).2 = .error m) ↔
      ∃ name ∈ rest, ∃ x, (configs.of name).find? "children" = some x ∧ NamesNothing x := by
  induction rest generalizing parents with
  | nil => exact iff_of_false nofun nofun
  | cons name rest ih =>
    rw [nest, List.exists_mem_cons_iff, ← childrenIn_error_iff]
    cases childrenIn (configs.of name) with
    | error m => exact iff_of_true ⟨m, rfl⟩ (.inl ⟨m, rfl⟩)
    | ok children => simp [ih]

theorem escapes_load_iff [Text.Codecs] {files : List String} {loose : List Tutorial}
    (hlist : w.disk.list directory = .ok files)
    (hloose : (readFiles directory encoding [] (files.mergeSort Text.le)).start w =
      (.ok loose, w)) :
    (load directory encoding).Escapes w ↔
      ∃ configs, readConfigs w.disk directory (loose.map (·.name)) []
          (files.mergeSort Text.le) = .ok configs ∧
        ∃ t ∈ loose, ∃ x, (configs.of t.name).find? "children" = some x ∧ NamesNothing x := by
  have hfiles : (ofExcept Failure.disk (w.disk.list directory)).start w = (.ok files, w) := by
    rw [hlist]
    rfl
  rw [load, Escapes, start_bind_ok (start_disk w), start_bind_ok hfiles, start_bind_ok hloose,
    start_bind_ok (start_disk w)]
  cases readConfigs w.disk directory (loose.map (·.name)) [] (files.mergeSort Text.le) with
  | error e =>
    constructor
    · rintro ⟨f, hf, hgiven⟩
      cases hf
      cases hgiven
    · rintro ⟨configs, hok, -⟩
      cases hok
  | ok configs =>
    have hread : (ofExcept Failure.input (.ok configs)).start w = (.ok configs, w) := rfl
    have hnest := nest_error_iff configs (loose.map (·.name)) [] (loose.map (·.name))
    rw [start_bind_ok hread, start_bind_ok (start_remarkAll _ w)]
    simp only [Except.ok.injEq, exists_eq_left']
    simp only [List.mem_map, exists_exists_and_eq_and] at hnest
    rw [← hnest]
    cases (nest configs (loose.map (·.name)) [] (loose.map (·.name))).2 with
    | error m => exact iff_of_true ⟨_, rfl, rfl⟩ ⟨m, rfl⟩
    | ok parents =>
      constructor
      · rintro ⟨f, hf, -⟩
        cases hf
      · rintro ⟨m, hm⟩
        cases hm

end Tutorial

namespace CommandLine

theorem links_located (directory : Path) (text : String) : (located directory text).Links := by
  have hresolve : (do
      return (← Run.disk).resolve (directory.join text) : Run Path).Links :=
    stops_disk.bind fun d => stops_pure _
  rw [located]
  dsimp only
  split
  · refine StopsAt.bind ?_ fun _ => hresolve
    exact stops_fail rfl
  · exact hresolve

theorem links_publish [Host] (directory root : Path) (input : String) (outDir tutorials : Option String)
    (showPrivate : Bool) : (publish directory root input outDir tutorials showPrivate).Links := by
  have hsite : ∀ root input out settings tutorials, (do
      let _ ← Site.publish root input out settings tutorials
      return .fine : Run Ending).Links := fun root input out settings tutorials =>
    (Site.careful_publish root input out settings tutorials).links.bind fun _ => stops_pure _
  have hout : ∀ text, (some <$> located directory text).Links := fun text =>
    (links_located directory text).bind fun _ => stops_pure _
  have hrest : ∀ {out : Run (Option Path)} settings tutorials, out.Links → (do
      let input ← located directory input
      let out ← out
      let _ ← Site.publish root input out (some settings) tutorials
      return .fine : Run Ending).Links := fun settings tutorials hout =>
    (links_located directory input).bind fun input => hout.bind fun out => hsite _ _ _ _ _
  refine (Settings.links_load root).bind fun settings => ?_
  cases outDir with
  | none =>
    replace hrest := fun settings tutorials => hrest settings tutorials (stops_pure none)
    cases tutorials with
    | none => exact (stops_pure _).bind fun tutorials => hrest _ _
    | some text =>
      dsimp only
      split
      · exact (stops_pure _).bind fun tutorials => hrest _ _
      · exact (hout text).bind fun tutorials => hrest _ _
  | some outDir =>
    replace hrest := fun settings tutorials => hrest settings tutorials (hout outDir)
    cases tutorials with
    | none => exact (stops_pure _).bind fun tutorials => hrest _ _
    | some text =>
      dsimp only
      split
      · exact (stops_pure _).bind fun tutorials => hrest _ _
      · exact (hout text).bind fun tutorials => hrest _ _

theorem start_execute [Host] {directory root : Path} {i : Invocation} {f : Failure} {w' : World}
    (hroot : (located directory i.root).start w = (.ok root, w))
    {input : String} {outDir tutorials : Option String} {showPrivate : Bool}
    (hcommand : i.command = .publish input outDir tutorials showPrivate)
    (hpublish : (publish directory root input outDir tutorials showPrivate).start w =
      (.error f, w')) :
    (execute directory i).start w =
      if f.isGiven then (.ok ⟨1, ["error: " ++ f.message]⟩, w') else (.error f, w') := by
  have hlink : f.isLink = false := links_publish _ _ _ _ _ _ _ _ _ hpublish
  rw [execute, start_bind_ok hroot, hcommand]
  dsimp only
  rw [start_tryCatch, hpublish]
  cases f with
  | config e | input e => rfl
  | link e => cases hlink
  | misfit _ | disk _ | noOutput _ | outputNotDirectory _ | decode _ | unknownEncoding
  | encodingName | tooLongInteger _ | ignore _ | noTemplate _ | template _ => rfl

/-- What is wrong with a dump is always said. Settings escape exactly if they are no text or hold an
integer that is too long, doclets exactly at a tangled kind, and tutorials exactly at children that
name nothing; and a publish command reports in one line whatever is said to be wrong, and stops at
whatever escapes. -/
theorem loading_escapes_iff [Host] {root input tutorials : Path} {encoding : String}
    {entry : Option DiskEntry} {bytes : List UInt8} {files : List String}
    (hsettings : w.disk.look (root.child Settings.fileName) = .ok entry)
    (hinput : w.disk.read input = .ok bytes) (hlist : w.disk.list tutorials = .ok files)
    (hlegible : ∀ name ∈ files,
      Tutorial.IsLegible w.disk encoding (tutorials.child name)) :
    ((Settings.load root).Escapes w ↔
      ∃ bytes, w.disk.read (root.child Settings.fileName) = .ok bytes ∧
        Settings.Unreported bytes) ∧
    ¬(Doclet.load input).Escapes w ∧
    (∀ raw, (Doclet.loadSymbols raw).Escapes w ↔
      ∃ before d after, raw = before ++ d :: after ∧ (∀ e ∈ before, ∃ s, e.symbol? = .ok s) ∧
        d.HasTangledKind) ∧
    (∃ loose, (Tutorial.readFiles tutorials encoding [] (files.mergeSort Text.le)).start w =
        (.ok loose, w) ∧
      ((Tutorial.load tutorials encoding).Escapes w ↔
        ∃ configs, Tutorial.readConfigs w.disk tutorials (loose.map (·.name)) []
            (files.mergeSort Text.le) = .ok configs ∧
          ∃ t ∈ loose, ∃ x, (Tutorial.Configs.of configs t.name).find? "children" = some x ∧
            Tutorial.NamesNothing x)) ∧
    ∀ directory i root input outDir tutorials showPrivate f w',
      (located directory i.root).start w = (.ok root, w) →
      i.command = .publish input outDir tutorials showPrivate →
      (publish directory root input outDir tutorials showPrivate).start w = (.error f, w') →
      (execute directory i).start w =
        if f.isGiven then (.ok ⟨1, ["error: " ++ f.message]⟩, w') else (.error f, w') := by
  have hsorted : ∀ name ∈ files.mergeSort Text.le,
      Tutorial.IsLegible w.disk encoding (tutorials.child name) :=
    fun name hname => hlegible name (List.mem_mergeSort.mp hname)
  obtain ⟨loose, hloose⟩ := Tutorial.exists_readFiles hsorted []
  refine ⟨Settings.escapes_load_iff hsettings, Doclet.not_escapes_load hinput,
    fun raw => Doclet.escapes_loadSymbols_iff,
    ⟨loose, hloose, Tutorial.escapes_load_iff hlist hloose⟩, ?_⟩
  intro directory i root input outDir tutorials showPrivate f w' hroot hcommand hpublish
  exact start_execute hroot hcommand hpublish

/-- A project whose settings file holds one byte that starts no character, with the dump of no
symbols and one tutorial. -/
def undecodable : World where
  disk :=
    { entries :=
        [(["docgraft.toml"], .file [0xff]), (["in.json"], .file (Text.Utf8.encode "[]".toList)),
          (["t"], .directory), (["t", "a.md"], .file [])] }

theorem decode_undecodable :
    Text.Encoding.ofOption (Text.Utf8.decode? [0xff]) = .error .malformed := by
  decide +kernel

theorem look_undecodable : undecodable.disk.look (Path.top.child Settings.fileName) =
    .ok (some (.file [0xff])) :=
  Disk.look_of_locate (Disk.locate_of_isPlainPath rfl)

section Plain

open scoped Plain

/-- Publishing stops at settings that are no text, without a line that says so. -/
theorem undecodable_settings_escape :
    ((execute .top ⟨".", false, .publish "in.json" none none false⟩).start undecodable).1 =
      .error (.decode .malformed) := by
  have hjoin : Path.top.join "." = .top := by decide +kernel
  have hroot : (located .top ".").start undecodable = (.ok .top, undecodable) := by
    rw [located, hjoin]
    dsimp only
    rw [if_neg (by decide), start_bind_ok (start_disk _), Disk.resolve_top]
    rfl
  have hread : undecodable.disk.read (Path.top.child Settings.fileName) = .ok [0xff] :=
    Disk.read_of_look look_undecodable
  have hload : ((Settings.load .top).start undecodable).1 = .error (.decode .malformed) := by
    rw [Settings.start_load_file look_undecodable hread, Settings.ofBytes, decode_undecodable]
  have hpublish : (publish .top .top "in.json" none none false).start undecodable =
      (.error (.decode .malformed), ((Settings.load .top).start undecodable).2) := by
    rw [publish]
    exact start_bind_error (Prod.ext hload rfl)
  rw [start_execute (i := ⟨".", false, .publish "in.json" none none false⟩) hroot rfl hpublish]
  rfl

/-- The settings of that project escape, its dump does not. -/
theorem undecodable_loading :
    (∀ name ∈ ["a.md"],
      Tutorial.IsLegible undecodable.disk "utf-8" (Path.child ⟨false, ["t"]⟩ name)) ∧
    (Settings.load .top).Escapes undecodable ∧
    ¬(Doclet.load ⟨false, ["in.json"]⟩).Escapes undecodable := by
  have hlist : undecodable.disk.list ⟨false, ["t"]⟩ = .ok ["a.md"] := by
    rw [Disk.list, Disk.locate_of_isPlainPath rfl]
    rfl
  have hinput : undecodable.disk.read ⟨false, ["in.json"]⟩ =
      .ok (Text.Utf8.encode "[]".toList) :=
    Disk.read_ok_iff.mpr ⟨_, Disk.locate_of_isPlainPath rfl, rfl⟩
  have hread : undecodable.disk.read (Path.child ⟨false, ["t"]⟩ "a.md") = .ok [] :=
    Disk.read_ok_iff.mpr ⟨_, Disk.locate_of_isPlainPath rfl, rfl⟩
  have hlegible : ∀ name ∈ ["a.md"],
      Tutorial.IsLegible undecodable.disk "utf-8" (Path.child ⟨false, ["t"]⟩ name) := by
    intro name hname _
    obtain rfl := List.mem_singleton.mp hname
    refine ⟨some (.file []), Disk.look_of_locate (Disk.locate_of_isPlainPath rfl), fun _ => ?_⟩
    have hencoding : Text.Encoding.ofName? "utf-8" = some .utf8 := by decide +kernel
    rw [hread]
    unfold textOf
    rw [if_neg (by decide), hencoding]
    exact ⟨_, rfl⟩
  obtain ⟨hsettings, hdump, -⟩ := loading_escapes_iff look_undecodable hinput hlist hlegible
  refine ⟨hlegible, hsettings.mpr ⟨[0xff], Disk.read_of_look look_undecodable, ?_⟩, hdump⟩
  exact .inl ⟨.malformed, decode_undecodable⟩

end Plain

end CommandLine

end Refsite

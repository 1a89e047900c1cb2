import SpriteStage.CommandLine.Host
set_option autoImplicit false

/-! # The command `program-check`

Checks many programs at once: those of a directory, in the order of their paths, or a single file.
All that it writes is meant for people, so it goes to the error output. -/

namespace SpriteStage

namespace ProgramCheck

/-- The directory that is checked if none is named. -/
def defaultDirectory : String := "programs"

/-- The explanation of the tool. -/
def help : String :=
  "xtask - 开发辅助工具

USAGE:
  cargo xtask <command>

COMMANDS:
  check-all       运行 fmt、clippy、test 门禁检查，并检查示例程序
  demo            回放 programs/demo.json 与 programs/demo.timeline.json
  program-check   检查程序文件

PROGRAM-CHECK:
  cargo xtask program-check [path]

  不带参数：检查 programs/ 下所有 .json 文件（跳过 *.timeline.json）
  带路径参数：检查指定文件或目录

  检查内容：
    - JSON 结构错误
    - 动作参数缺失或不是数字
    - 未知动作类型、空动作组、没有触发器的动作组

ALIASES (in .cargo/config.toml):
  cargo check-all     -> cargo xtask check-all
  cargo demo          -> cargo xtask demo
  cargo program-check -> cargo xtask program-check

"

/-- Whether a path looks like that of a program and not like that of a timeline. -/
def isProgramPath (path : String) : Bool :=
  path.endsWith ".json" && !path.endsWith ".timeline.json"

/-- The outcome of a command that failed after it had written something. -/
def failure (written message : String) : Output :=
  ⟨1, "", written ++ "xtask error: " ++ line message⟩

/-- The programs to check, with their paths, or what is wrong with the path. -/
def select (tree : FileTree) : Option String → Except String (List (String × String))
  | some path =>
    match tree.read? path with
    | some text => .ok [(path, text)]
    | none =>
      if tree.isDirectory path then
        .ok ((tree.filesBelow path).filter (isProgramPath ·.1))
      else .error ("路径不存在: " ++ path)
  | none =>
    if tree.contains defaultDirectory then
      .ok ((tree.filesBelow defaultDirectory).filter (isProgramPath ·.1))
    else
      .error ("默认程序目录不存在: " ++ defaultDirectory
        ++ "\n请在 workspace 根目录运行，或指定程序路径")

/-- What was found in programs: the paths of those that are none, and the remarks on the others. -/
structure Findings where
  unreadable : List String
  remarks : List (String × Remark)

/-- Look at programs in order. -/
def examine : List (String × String) → Findings
  | [] => ⟨[], []⟩
  | (path, text) :: rest =>
    let others := examine rest
    match Draft.parse? text with
    | none => { others with unreadable := path :: others.unreadable }
    | some draft => { others with remarks := draft.remarks.map (path, ·) ++ others.remarks }

/-- The report on a number of programs. -/
def report (count : Nat) (found : Findings) : String :=
  let remarks := found.remarks.map (·.2)
  let errors := found.unreadable.length + countRemarks .error remarks
  line s!"==> 检查 {count} 个程序文件...\n"
    ++ String.join (found.unreadable.map fun path =>
      line ("[ERROR] " ++ path ++ ": " ++ ProgramError.unreadable.message))
    ++ line "─────────────────────────────────────────────────────"
    ++ line s!"检查完成: {count} 个程序"
    ++ line ""
    ++ String.join (found.remarks.map fun (path, r) => line (r.text path))
    ++ line ""
    ++ checkSummary errors (countRemarks .warn remarks)

/-- Whether what was found makes the check fail. -/
def Findings.hasErrors (found : Findings) : Bool :=
  !found.unreadable.isEmpty || decide (0 < countRemarks .error (found.remarks.map (·.2)))

/-- Check a file, a directory, or the default directory. -/
def check (tree : FileTree) (path : Option String) : Output :=
  match select tree path with
  | .error message => failure "" message
  | .ok [] => ⟨0, "", line "未找到程序文件（.json）"⟩
  | .ok programs =>
    let found := examine programs
    let report := report programs.length found
    if found.hasErrors then failure report "程序检查发现错误" else ⟨0, "", report⟩

/-- Carry out the tool with its arguments. Without any it explains itself; arguments after the path
    are not looked at. -/
def execute (tree : FileTree) : List String → Output
  | [] | "help" :: _ | "-h" :: _ | "--help" :: _ => ⟨0, "", help⟩
  | "program-check" :: rest => check tree rest.head?
  | other :: _ => failure "" ("unknown xtask subcommand: " ++ other)

end ProgramCheck

end SpriteStage

import RemotefsSsh.Fs

/-!
# The command lines sent to the remote shell

Every line either client runs, one constructor for each `format!`. `text` is what the `format!`
yields; `line` is what reaches the remote shell, with the tail that `perform_shell_cmd_with_rc`
(ssh/commons.rs:355) appends to the commands that go through it.

| here | there |
| --- | --- |
| `changeDir`                        | scp.rs:278 |
| `listDir`, `statDir`, `statFile`   | scp.rs:312, :342, :343 |
| `isDirectory`, `existsPath`            | scp.rs:211, :371 |
| `chmod`, `chown`, `touchAccess`, `touchModify` | scp.rs:388, :395, :404, :411 |
| `removeFile`, `removeDir`, `removeDirAll` | scp.rs:429, :446, :463 |
| `createDir`, `symlink`             | scp.rs:485, :509 |
| `copy`, `mov`                      | scp.rs:528 and sftp.rs:363, scp.rs:554 |
| `execAt`                           | commons.rs:347 |
| `pwd`                              | scp.rs:231 |
-/

namespace RemotefsSsh

open Utf8 UnixPath

inductive ShellCmd where
  | pwd
  | changeDir (dir : PathBuf)
  | listDir (path : PathBuf)
  | statDir (path : PathBuf)
  | statFile (path : PathBuf)
  | isDirectory (path : PathBuf)
  | existsPath (path : PathBuf)
  | chmod (mode : UInt32) (path : PathBuf)
  | chown (user : UInt32) (gid : Option UInt32) (path : PathBuf)
  | touchAccess (time : Str) (path : PathBuf)
  | touchModify (time : Str) (path : PathBuf)
  | removeFile (path : PathBuf)
  | removeDir (path : PathBuf)
  | removeDirAll (path : PathBuf)
  | createDir (mode : UInt32) (path : PathBuf)
  | symlink (target path : PathBuf)
  | copy (src dest : PathBuf)
  | mov (src dest : PathBuf)
  | execAt (p : PathBuf) (cmd : Str)
deriving DecidableEq, Repr

/-- `"{}"` of a path. -/
def quoted (p : PathBuf) : Str := '"' :: p ++ ['"']

namespace ShellCmd

def text : ShellCmd → Str
  | pwd => "pwd".toList
  | changeDir dir => "cd ".toList ++ quoted dir ++ "; echo $?; pwd".toList
  | listDir path => "unset LANG; ls -la ".toList ++ quoted (path ++ ['/'])
  | statDir path => "ls -ld ".toList ++ quoted path
  | statFile path => "ls -l ".toList ++ quoted path
  | isDirectory path => "test -d ".toList ++ quoted path
  | existsPath path => "test -e ".toList ++ quoted path
  | chmod mode path => "chmod ".toList ++ octal mode.toNat ++ ' ' :: quoted path
  | chown user gid path =>
    "chown ".toList ++ decimal user.toNat ++ (gid.map fun x => ':' :: decimal x.toNat).getD [] ++ ' ' :: quoted path
  | touchAccess time path => "touch -a -t ".toList ++ time ++ ' ' :: quoted path
  | touchModify time path => "touch -m -t ".toList ++ time ++ ' ' :: quoted path
  | removeFile path => "rm -f ".toList ++ quoted path
  | removeDir path => "rmdir ".toList ++ quoted path
  | removeDirAll path => "rm -rf ".toList ++ quoted path
  | createDir mode path => "mkdir -m ".toList ++ octal mode.toNat ++ ' ' :: quoted path
  | symlink target path => "ln -s ".toList ++ quoted target ++ ' ' :: quoted path
  | copy src dest => "cp -rf ".toList ++ quoted src ++ ' ' :: quoted dest
  | mov src dest => "mv -f ".toList ++ quoted src ++ ' ' :: quoted dest
  | execAt p cmd => "cd ".toList ++ quoted p ++ "; ".toList ++ cmd

/-- The tail `perform_shell_cmd_with_rc` appends. -/
def rcTail : Str := "; echo $?".toList

/-- Whether the command goes through `perform_shell_cmd_with_rc`. -/
def withRc : ShellCmd → Bool
  | pwd | changeDir _ | listDir _ | statDir _ | statFile _ => false
  | _ => true

def line (c : ShellCmd) : Str := c.text ++ if c.withRc then rcTail else []

theorem line_of_withRc {c : ShellCmd} (hc : c.withRc = true) : c.text ++ rcTail = c.line := by
  rw [line, if_pos hc]

theorem line_of_bare {c : ShellCmd} (hc : c.withRc = false) : c.text = c.line := by
  rw [line, hc]
  exact (List.append_nil c.text).symm

end ShellCmd

end RemotefsSsh

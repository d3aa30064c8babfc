import SandboxCpu.Files
import SandboxCpu.Image.HexText
/-!
# Program images in files

A program image is a file: its bytes as they are, or the bytes that its text describes.
-/

namespace SandboxCpu

/-- Why there is no image. -/
inductive ImageFailure
  | unreadable (path : String) (cause : ReadFailure)
  /-- Its text does not describe bytes. -/
  | undecodable (path : String) (cause : HexText.TokenError)
  deriving DecidableEq, Repr

/-- The wording of a failure, from the outermost to the innermost cause. -/
def ImageFailure.causes : ImageFailure → List String
  | unreadable path cause => ["无法读取镜像文件 '" ++ path ++ "'", cause.message]
  | undecodable path cause =>
    ["无法解析镜像文件 '" ++ path ++ "'", cause.imageMessage, cause.message]

/-- How a file holds an image. -/
inductive ImageFormat
  | raw
  | hexText
  deriving DecidableEq, Repr

/-- The image in a file. -/
def Files.image (files : Files) (path : String) : ImageFormat → Except ImageFailure (List UInt8)
  | .raw => (files path).mapError (.unreadable path)
  | .hexText => do
    let text ← (files.text path).mapError (.unreadable path)
    (HexText.parse text).mapError (.undecodable path)

end SandboxCpu

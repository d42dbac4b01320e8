import LayerGraph.Operator.Architecture
/-!
# The operators of the pipeline graph

The dataset at the root, transforms of its images, the training configuration, optimizers, metrics
and callbacks.
-/

namespace LayerGraph.Operator.Pipeline
set_option autoImplicit false
open Architecture (zero one)

def transform (id label callee : String) (params : List ParamDecl) : Operator where
  id
  category := .dataAugmentation
  label
  description := "torchvision transform"
  params
  inputType := some .dataset
  outputType := some .dataset
  outputTypes := [.dataset]
  callee := some callee

def optimizer (id label callee : String) (params : List ParamDecl) : Operator where
  id
  category := .optimization
  label
  description := "Updates the model parameters"
  params
  inputType := some .trainable
  outputType := some .optimizer
  outputTypes := [.optimizer]
  callee := some callee

def metric (id label callee average : String) : Operator where
  id
  category := .metrics
  label
  description := "torchmetrics classification metric"
  params :=
    [(ParamDecl.choice "task" "multiclass" ["multiclass", "binary", "multilabel"]).optional,
     (ParamDecl.int "num_classes" 10 (some 2) none).optional,
     .choice "average" average ["micro", "macro", "weighted", "none"]]
  inputType := some .prediction
  outputType := some .metric
  outputTypes := [.metric]
  callee := some callee

/-- A callback ends a path of the workflow. -/
def callback (id label description : String) (params : List ParamDecl) : Operator where
  id
  category := .callbacks
  label
  description
  params
  inputType := some .trainable
  acceptedTypes := [.prediction, .optimizer, .metric]
  outputType := some .callback
  outputTypes := [.callback]

def monitor : ParamDecl := .choice "monitor" "val_loss" ["val_loss", "val_accuracy"]

def dataset : Operator where
  id := "dataset"
  category := .dataset
  label := "Dataset"
  description := "Workflow root; the dataset itself is chosen in the architecture graph"
  params := [.bool "shuffle" true, .bool "download" true]
  outputType := some .dataset
  outputTypes := [.dataset]

/-- The training configuration; what it produces depends on what it feeds. -/
def trainingConfig : Operator where
  id := "trainingconfig"
  category := .training
  label := "Training Configuration"
  description := "Epochs, batching and device placement; retyped by the node it feeds"
  params :=
    [.int "epochs" 10 (some 1) none,
     .int "batch_size" 64 (some 1) none,
     .int "num_workers" 2 (some 0) none,
     .bool "pin_memory" true,
     .choice "device" "auto" ["auto", "cpu", "cuda"]]
  inputType := some .dataset
  outputTypes := [.prediction, .trainable]

/-- The optimizer that is used where none is drawn. -/
def adam : Operator :=
  optimizer "adam" "Adam" "optim.Adam"
    [.float "lr" (.ofDecimal 1 (-3)) (some zero) none,
     .float "beta1" (.ofDecimal 9 (-1)) (some zero) (some one),
     .float "beta2" (.ofDecimal 999 (-3)) (some zero) (some one),
     .float "eps" (.ofDecimal 1 (-8)) (some zero) none,
     .float "weight_decay" zero (some zero) none,
     .bool "amsgrad" false]

/-- All operators of the pipeline, in the order of the palette. -/
def all : List Operator :=
  [dataset,
   transform "totensor" "ToTensor" "transforms.ToTensor" [],
   transform "normalize" "Normalize" "transforms.Normalize"
     [.float "mean" (.ofDecimal 5 (-1)) none none,
      .float "std" (.ofDecimal 5 (-1)) (some zero) none],
   transform "resize" "Resize" "transforms.Resize" [.int "size" 224 (some 1) none],
   transform "centercrop" "CenterCrop" "transforms.CenterCrop" [.int "size" 224 (some 1) none],
   transform "randomcrop" "RandomCrop" "transforms.RandomCrop"
     [.int "size" 32 (some 1) none, .int "padding" 4 (some 0) none],
   transform "randomhorizontalflip" "RandomHorizontalFlip" "transforms.RandomHorizontalFlip"
     [.float "p" (.ofDecimal 5 (-1)) (some zero) (some one)],
   transform "randomverticalflip" "RandomVerticalFlip" "transforms.RandomVerticalFlip"
     [.float "p" (.ofDecimal 5 (-1)) (some zero) (some one)],
   transform "randomrotation" "RandomRotation" "transforms.RandomRotation"
     [.float "degrees" (.ofDecimal 15 0) (some zero) (some (.ofDecimal 360 0))],
   transform "colorjitter" "ColorJitter" "transforms.ColorJitter"
     [.float "brightness" (.ofDecimal 2 (-1)) (some zero) none,
      .float "contrast" (.ofDecimal 2 (-1)) (some zero) none,
      .float "saturation" (.ofDecimal 2 (-1)) (some zero) none,
      .float "hue" zero (some zero) (some (.ofDecimal 5 (-1)))],
   transform "gaussianblur" "GaussianBlur" "transforms.GaussianBlur"
     [.int "kernel_size" 3 (some 1) none, .float "sigma" one (some zero) none],
   trainingConfig,
   adam,
   optimizer "adamw" "AdamW" "optim.AdamW"
     [.float "lr" (.ofDecimal 1 (-3)) (some zero) none,
      .float "beta1" (.ofDecimal 9 (-1)) (some zero) (some one),
      .float "beta2" (.ofDecimal 999 (-3)) (some zero) (some one),
      .float "eps" (.ofDecimal 1 (-8)) (some zero) none,
      .float "weight_decay" (.ofDecimal 1 (-2)) (some zero) none,
      .bool "amsgrad" false],
   optimizer "sgd" "SGD" "optim.SGD"
     [.float "lr" (.ofDecimal 1 (-2)) (some zero) none,
      .float "momentum" (.ofDecimal 9 (-1)) (some zero) none,
      .float "dampening" zero (some zero) none,
      .float "weight_decay" zero (some zero) none,
      .bool "nesterov" false],
   optimizer "rmsprop" "RMSprop" "optim.RMSprop"
     [.float "lr" (.ofDecimal 1 (-2)) (some zero) none,
      .float "alpha" (.ofDecimal 99 (-2)) (some zero) (some one),
      .float "eps" (.ofDecimal 1 (-8)) (some zero) none,
      .float "momentum" zero (some zero) none,
      .float "weight_decay" zero (some zero) none],
   metric "accuracy" "Accuracy" "torchmetrics.Accuracy" "micro",
   metric "precision" "Precision" "torchmetrics.Precision" "macro",
   metric "recall" "Recall" "torchmetrics.Recall" "macro",
   metric "f1score" "F1 Score" "torchmetrics.F1Score" "macro",
   callback "modelcheckpoint" "Model Checkpoint" "Saves model weights after an epoch"
     [monitor, .bool "save_best_only" true],
   callback "earlystopping" "Early Stopping"
     "Stops training when the monitored value stops improving"
     [monitor,
      .int "patience" 5 (some 1) none,
      .float "min_delta" zero (some zero) none],
   callback "lrmonitor" "Learning Rate Monitor"
     "Prints the learning rate of every parameter group"
     [.int "log_every_n_epochs" 1 (some 1) none]]

end LayerGraph.Operator.Pipeline
